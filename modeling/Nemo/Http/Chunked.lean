import Nemo.Http.ResponseRoundTrip

/-!
# Chunked responses

The body of a chunked response, when no chunk line is cut: whenever one is begun, the buffer, or else the next read,
has the whole of it. The data of the chunks, and the line ends behind them, may arrive in any pieces.

* `recvChunkLine_uncut` — a chunk line is read, and nothing else
* `recvChunks_uncut` — the chunks are put together, and what is behind the last one is not read as a chunk
-/

namespace Nemo.Http.Client

open Infra Automaton Net

/-! ## Chunks -/

/-- A chunk: the digits of its size, and its data. A chunk without data is the last one. -/
structure Chunk where
  digits : Bytes
  data : Bytes
  digits_ne : digits ≠ []
  xdigits : ∀ b ∈ digits, xdigit.contains false b = true
  counts : digitsValue 16 digits = data.length
  /-- the length of a chunk is an `int`, to which two is added -/
  length_le : data.length + 2 ≤ intMax

namespace Chunk

variable (c : Chunk)

def line : Bytes := c.digits ++ ascii "\r\n"

/-- The data with the line end behind it. -/
def dataLine : Bytes := c.data ++ ascii "\r\n"

def text : Bytes := c.line ++ c.dataLine

theorem line_eq : c.line = c.digits ++ [13, 10] := rfl

theorem length_line : c.line.length = c.digits.length + 2 := by
  rw [line_eq, List.length_append]
  rfl

theorem length_dataLine : c.dataLine.length = c.data.length + 2 := by
  rw [dataLine, List.length_append]
  rfl

end Chunk

/-- What there is to read a chunk line from: the bytes that are held, or else the next read. -/
def gathered (env : Env) (held : Bytes) (stream : Stream) : Bytes × Stream :=
  if held.isEmpty then read env.buffSize stream else (held, stream)

/-- The bytes that are held behind a chunk, if `behind` was held behind its line, and what has not been read. -/
def afterData (n : Nat) (behind : Bytes) (stream : Stream) : Bytes × Stream :=
  if n ≤ behind.length then (behind.drop n, stream) else ([], skip (n - behind.length) stream)

/-- No chunk line is cut. -/
def uncut (env : Env) : List Chunk → Bytes → Stream → Bool
  | [], _, _ => true
  | c :: cs, held, stream =>
    let data := gathered env held stream
    let after := afterData c.dataLine.length (data.1.drop c.line.length) data.2
    c.line.length ≤ data.1.length && uncut env cs after.1 after.2

/-! ## A chunk line -/

theorem chunkLine_goes : xdigit.goes table 1 (· == ⟨2, [.mark], false⟩) = true ∧
    xdigit.goes table 2 (· == ⟨2, [], false⟩) = true ∧
    (byte 13).goes table 2 (· == ⟨3, [.chunkSize], false⟩) = true ∧
    (byte 10).goes table 3 (· == ⟨120, [.done], true⟩) = true := by
  decide +kernel

section

variable {c : Chunk} {behind : Bytes}

theorem xdigit_bytes {b : UInt8} (hb : xdigit.contains false b = true) :
    digitValue b < 16 ∧ isspace b = false ∧ b ≠ 45 ∧ b ≠ 43 ∧ b ≠ 88 ∧ b ≠ 120 := by
  have hcheck : xdigit.check (fun b => digitValue b < 16 && !isspace b && b != 45 && b != 43 && b != 88 && b != 120) =
      true := by
    decide +kernel
  have h := Class.of_check hcheck hb
  simp only [Bool.and_eq_true, decide_eq_true_eq, Bool.not_eq_true', bne_iff_ne] at h
  obtain ⟨⟨⟨⟨⟨h1, h2⟩, h3⟩, h4⟩, h5⟩, h6⟩ := h
  exact ⟨h1, h2, h3, h4, h5, h6⟩

/-- The digits are not taken for a prefix. -/
theorem dropHexPrefix_line (c : Chunk) (behind : Bytes) :
    dropHexPrefix (c.line ++ behind) = c.line ++ behind := by
  obtain ⟨digits, data, hne, hdigits, hcounts, hle⟩ := c
  show dropHexPrefix ((digits ++ [13, 10]) ++ behind) = (digits ++ [13, 10]) ++ behind
  unfold dropHexPrefix
  split
  · next x d s heq =>
    rw [heq]
    refine if_neg fun h => ?_
    obtain ⟨b, rest, rfl⟩ := List.exists_cons_of_ne_nil hne
    rcases rest with _ | ⟨b', rest⟩
    · cases heq
      exact absurd h.1 (by decide)
    · obtain ⟨-, -, -, -, h88, h120⟩ := xdigit_bytes (hdigits b' (by simp))
      have hx : b' = x := (List.cons.inj (List.cons.inj heq).2).1
      exact h.1.elim (fun heq => h88 (hx.trans heq)) fun heq => h120 (hx.trans heq)
  · rfl

/-- The number that `strtol` finds. -/
theorem strtol_line (c : Chunk) (behind : Bytes) : strtol 16 (c.line ++ behind) = c.data.length := by
  have htaken := dropHexPrefix_line c behind
  have hle := c.length_le
  have hvalue : digitsValue 16 (c.line ++ behind) = c.data.length := by
    have hall : ∀ d ∈ c.digits.map digitValue, decide (d < 16) = true := fun d hd => by
      obtain ⟨b, hb, rfl⟩ := List.mem_map.mp hd
      exact decide_eq_true (xdigit_bytes (c.xdigits b hb)).1
    have hdigits := c.counts
    rw [digitsValue, List.takeWhile_eq_self_iff.mpr hall] at hdigits
    rw [digitsValue, Chunk.line_eq, List.append_assoc, List.map_append, List.takeWhile_append_of_pos hall]
    exact (congrArg _ (congrArg List.reverse (List.append_nil _))).trans hdigits
  obtain ⟨b, rest, hcons⟩ := List.exists_cons_of_ne_nil c.digits_ne
  obtain ⟨-, hspace, hminus, hplus, -, -⟩ := xdigit_bytes (c.xdigits b (by rw [hcons]; exact List.mem_cons_self))
  have hhead : c.line ++ behind = b :: (rest ++ 13 :: 10 :: behind) := by
    rw [Chunk.line_eq, hcons]
    simp
  have hsign : takeSign (b :: (rest ++ 13 :: 10 :: behind)) = (false, b :: (rest ++ 13 :: 10 :: behind)) := by
    unfold takeSign
    split
    · next heq => exact absurd (List.cons.inj heq).1 hminus
    · next heq => exact absurd (List.cons.inj heq).1 hplus
    · rfl
  rw [hhead] at htaken hvalue ⊢
  rw [strtol, List.dropWhile_cons_of_neg (by rw [hspace]; exact Bool.false_ne_true), hsign]
  simp only [htaken, if_true, Bool.false_eq_true, if_false, hvalue]
  simp only [intMax] at hle
  omega

/-- The parser behind a chunk line. -/
def lineParser (c : Chunk) : HttpClientParser where
  cs := 120
  bodyStart := c.line.length
  contentLen := c.data.length
  chunked := true
  chunksDone := c.data.length = 0
  nread := c.line.length

/-- The run over a chunk line. -/
theorem exec_line (c : Chunk) (behind : Bytes) : ∃ reports, (∀ f, onReports reports f = some f) ∧
    machine.exec (act (c.line ++ behind)) 1 0 (c.line ++ behind) (httpclientParserInit, []) =
      ⟨.stop, 120, c.line.length, ({ lineParser c with cs := 1, nread := 0 }, reports)⟩ := by
  obtain ⟨hfirst, hdigit, hcr, hlf⟩ := chunkLine_goes
  obtain ⟨b, rest, hcons⟩ := List.exists_cons_of_ne_nil c.digits_ne
  have hb := c.xdigits b (by rw [hcons]; exact List.mem_cons_self)
  have hrest : ∀ b' ∈ rest, xdigit.contains false b' = true := fun b' hb' =>
    c.xdigits b' (by rw [hcons]; exact List.mem_cons_of_mem _ hb')
  have htext : c.line ++ behind = b :: (rest ++ 13 :: 10 :: behind) := by
    rw [Chunk.line_eq, hcons]
    simp
  have hlength : c.line.length = 0 + 1 + rest.length + 1 + 1 := by
    rw [Chunk.length_line, hcons, List.length_cons]
    omega
  have hsize : toInt32 (strtol 16 (c.line ++ behind)) = c.data.length := by
    have hle := c.length_le
    rw [strtol_line]
    simp only [intMax] at hle
    exact Int.bmod_eq_of_le (by omega) (by omega)
  generalize hbuffer : c.line ++ behind = buffer at hsize ⊢
  have hdone : machine 3 10 = some ⟨120, [.done], true⟩ := Class.arc_eq hlf (contains_byte (by decide))
  have hrun := (Class.exec_step hfirst rfl hb 0 (rest ++ 13 :: 10 :: behind) (httpclientParserInit, [])).trans
    ((Class.exec_bytes (f := act buffer) hdigit hrest 1 (13 :: 10 :: behind) _).trans
      ((Class.exec_step hcr rfl (contains_byte (by decide)) (1 + rest.length) (10 :: behind) _).trans
        (exec_of_stops hdone rfl)))
  have hacc : perform (act buffer) [.done] (1 + rest.length + 1) (perform (act buffer) [.chunkSize] (1 + rest.length)
      (perform (act buffer) [.mark] 0 (httpclientParserInit, []))) =
      ({ httpclientParserInit with
          chunked := true
          contentLen := toInt32 (strtol 16 buffer)
          chunksDone := toInt32 (strtol 16 buffer) ≤ 0
          bodyStart := 1 + rest.length + 1 + 1 },
        [element (if toInt32 (strtol 16 buffer) ≤ 0 then .lastChunk else .chunkSize) buffer 0 (1 + rest.length),
          .element .headerDone (buffer.drop (1 + rest.length + 1 + 1)) (buffer.length - (1 + rest.length + 1) - 1)]) :=
    rfl
  have hdone' : decide ((c.data.length : Int) ≤ 0) = decide (c.data.length = 0) := decide_eq_decide.mpr (by omega)
  have hpos : 1 + rest.length + 1 + 1 = c.line.length := by omega
  have hstart : machine.exec (act buffer) 1 0 buffer (httpclientParserInit, []) =
      machine.exec (act buffer) 1 0 (b :: (rest ++ 13 :: 10 :: behind)) (httpclientParserInit, []) :=
    congrArg (fun bs => machine.exec (act buffer) 1 0 bs (httpclientParserInit, [])) (hbuffer.symm.trans htext)
  rw [hacc, hsize, hdone', hpos] at hrun
  refine ⟨_, fun f => ?_, hstart.trans hrun⟩
  split <;> rfl

theorem Chunk.length_line_pos (c : Chunk) : 0 < c.line.length := by
  rw [c.length_line]
  omega

/-- A call of `execute` on a chunk line. Its callbacks leave the response as it is. -/
theorem execute_line (p : HttpResponseParser) (c : Chunk) (behind : Bytes) :
    p.execute (c.line ++ behind) true = some ({ p with parser := lineParser c }, behind, c.line.length) := by
  obtain ⟨reports, hreports, hrun⟩ := exec_line c behind
  have hpos := c.length_line_pos
  have hlength : (c.line ++ behind).length = c.line.length + behind.length := List.length_append
  have hexecute : httpclientParserExecute httpclientParserInit (c.line ++ behind) =
      some (lineParser c, reports, c.line.length) := by
    have hreset : httpclientParserInit.reset = httpclientParserInit := rfl
    have hcs : httpclientParserInit.cs = 1 := rfl
    rw [httpclientParserExecute, hreset, hcs, hrun]
    refine (if_pos ?_).trans ?_
    · simp only [lineParser, hlength]
      omega
    · simp [lineParser]
  unfold HttpResponseParser.execute
  simp only [if_true, hexecute]
  rw [Option.bind_eq_bind, Option.bind_some, hreports, Option.bind_eq_bind, Option.bind_some, List.drop_left]

end

/-- **A chunk line** that is in the buffer as a whole. -/
theorem recvChunkLine_uncut {env : Env} {p : HttpResponseParser} (hok : p.error = .ok) {c : Chunk}
    {held behind : Bytes} {stream : Stream} (hfits : (c.line ++ behind).length ≤ env.buffSize)
    (hgathered : (gathered env held stream).1 = c.line ++ behind) (fuel : Nat) :
    recvChunkLine env (fuel + 1) true p held stream =
      .message ({ p with parser := lineParser c }, behind) (gathered env held stream).2 := by
  have hpos := c.length_line_pos
  have hlength : (c.line ++ behind).length = c.line.length + behind.length := List.length_append
  have hnotEmpty : (c.line ++ behind).isEmpty = false := by
    rw [← Bool.not_eq_true, List.isEmpty_iff, ← List.length_eq_zero_iff]
    omega
  have hnotFull : (c.line ++ behind).length - c.line.length ≠ env.buffSize := by omega
  have hokay : ({ p with parser := lineParser c } : HttpResponseParser).hasError = false := by
    rw [HttpResponseParser.hasError, hok]
    rfl
  have hfinished : ({ p with parser := lineParser c } : HttpResponseParser).isFinished = 1 := rfl
  have hone : (1 : Int) ≠ 0 := by decide
  rw [recvChunkLine]
  cases hheld : held.isEmpty with
  | true =>
    obtain rfl := List.isEmpty_iff.mp hheld
    rw [gathered, hheld, if_pos rfl] at hgathered ⊢
    simp only [Bool.not_true, Bool.false_or, if_true, List.length_nil, Nat.sub_zero, Bool.true_and,
      List.nil_append, hgathered, hnotEmpty, Bool.false_eq_true, if_false, execute_line, hokay, hnotFull, hfinished,
      hone, ne_eq, not_false_eq_true]
  | false =>
    rw [gathered, hheld, if_neg Bool.false_ne_true] at hgathered ⊢
    obtain rfl : held = c.line ++ behind := hgathered
    simp only [Bool.not_true, Bool.false_or, Bool.false_and, Bool.false_eq_true, if_false, List.append_nil,
      execute_line, hokay, hnotFull, hfinished, hone, ne_eq, not_false_eq_true, if_true]

/-! ## A chunk -/

/-- What is left of a chunk is read, in any pieces. -/
theorem recvLeft_solid {env : Env} {fuel n : Nat} {stream : Stream} (h : Solid stream) (hfuel : n < fuel)
    (hn : n ≤ stream.flatten.length) :
    recvLeft env fuel n stream = (some (stream.flatten.take n), skip n stream) := by
  induction fuel generalizing n stream with
  | zero => exact absurd hfuel (Nat.not_lt_zero n)
  | succ fuel ih =>
    rw [recvLeft]
    by_cases hzero : n = 0
    · subst hzero
      rw [if_pos (by decide), skip_zero h, List.take_zero]
    · have hne : stream ≠ [] := by
        rintro rfl
        simp only [List.flatten_nil, List.length_nil] at hn
        omega
      have hasked : 0 < (if (n : Int) > env.buffSize then env.buffSize else (n : Int).toNat) := by
        have := env.buffSize_pos
        split <;> omega
      have hasked' : (if (n : Int) > env.buffSize then env.buffSize else (n : Int).toNat) ≤ n := by
        split <;> omega
      generalize (if (n : Int) > env.buffSize then env.buffSize else (n : Int).toNat) = asked at hasked hasked' ⊢
      obtain ⟨k, hread, hk, hle, hle'⟩ := read_solid h hne hasked
      have hlength : (stream.flatten.take k).length = k := List.length_take_of_le hle'
      have hempty : (stream.flatten.take k).isEmpty = false := by
        rw [← Bool.not_eq_true, List.isEmpty_iff, ← List.length_eq_zero_iff, hlength]
        omega
      have hrest := ih (n := n - k) (skip_solid k h) (by omega)
        (by rw [flatten_skip, List.length_drop]; omega)
      have hleft : (n : Int) - (stream.flatten.take k).length = (n - k : Nat) := by
        rw [hlength]
        omega
      rw [if_neg (by omega), hread]
      simp only [hempty, Bool.false_eq_true, if_false, hleft, hrest, Option.map_some]
      rw [flatten_skip, ← List.take_add, skip_skip, Nat.add_sub_cancel' (by omega)]

/-- **The data of a chunk**: what is held of it, and what arrives. -/
theorem recvChunk_data (env : Env) {c : Chunk} (body : Bytes) {behind more : Bytes} {stream : Stream} (h : Solid stream)
    (htext : behind ++ stream.flatten = c.dataLine ++ more) :
    recvChunk env c.data.length body behind stream =
      .message (body ++ c.data, (afterData c.dataLine.length behind stream).1)
        (afterData c.dataLine.length behind stream).2 := by
  have hle := c.length_le
  have hlength := c.length_dataLine
  have hcounted : ¬(c.data.length : Int) + 2 > intMax := by omega
  rw [recvChunk, if_neg hcounted]
  by_cases hheld : c.dataLine.length ≤ behind.length
  · have hdata : behind.take c.data.length = c.data := by
      have htaken := congrArg (List.take c.data.length) htext
      rwa [List.take_append_of_le_length (by omega), Chunk.dataLine, List.append_assoc, List.take_left] at htaken
    have htwo : ((c.data.length : Int) + 2).toNat = c.dataLine.length := by omega
    rw [if_pos (by omega), if_neg (by omega), afterData, if_pos hheld, Int.toNat_natCast, hdata, htwo]
  · have htotal := congrArg List.length htext
    rw [List.length_append, List.length_append] at htotal
    have hleft : (c.data.length : Int) - behind.length + 2 = (c.dataLine.length - behind.length : Nat) := by omega
    have hbytes : behind ++ stream.flatten.take (c.dataLine.length - behind.length) = c.dataLine := by
      have htaken := congrArg (List.take c.dataLine.length) htext
      rwa [List.take_append, List.take_of_length_le (by omega), List.take_left] at htaken
    rw [if_neg (by omega), hleft, recvLeft_solid h (by omega) (by omega), afterData, if_neg hheld]
    dsimp only
    rw [List.append_assoc, hbytes, List.length_append, hlength, if_neg (by omega),
      show body.length + (c.data.length + 2) - 2 = body.length + c.data.length by omega, Chunk.dataLine,
      ← List.append_assoc, ← List.length_append, List.take_left]

/-! ## The chunks -/

theorem gathered_solid {env : Env} {held : Bytes} {stream : Stream} (h : Solid stream)
    (hheld : held.length ≤ env.buffSize) :
    (gathered env held stream).1 ++ (gathered env held stream).2.flatten = held ++ stream.flatten ∧
      Solid (gathered env held stream).2 ∧ (gathered env held stream).1.length ≤ env.buffSize := by
  unfold gathered
  split
  · next hempty =>
    obtain rfl := List.isEmpty_iff.mp hempty
    cases stream with
    | nil => exact ⟨rfl, h, Nat.zero_le _⟩
    | cons s rest =>
      obtain ⟨n, hread, -, hn, hn'⟩ := read_solid h (List.cons_ne_nil s rest) env.buffSize_pos
      rw [hread]
      refine ⟨?_, skip_solid n h, ?_⟩
      · rw [flatten_skip, List.take_append_drop, List.nil_append]
      · rw [List.length_take_of_le hn']
        exact hn
  · exact ⟨rfl, h, hheld⟩

theorem afterData_solid {n size : Nat} {behind : Bytes} {stream : Stream} (h : Solid stream)
    (hbehind : behind.length ≤ size) :
    (afterData n behind stream).1 ++ (afterData n behind stream).2.flatten = (behind ++ stream.flatten).drop n ∧
      Solid (afterData n behind stream).2 ∧ (afterData n behind stream).1.length ≤ size := by
  unfold afterData
  split
  · next hle =>
    refine ⟨?_, h, ?_⟩
    · rw [List.drop_append_of_le_length hle]
    · rw [List.length_drop]
      omega
  · next hlt =>
    refine ⟨?_, skip_solid _ h, Nat.zero_le _⟩
    rw [flatten_skip, List.nil_append, List.drop_append, List.drop_of_length_le (show behind.length ≤ n by omega),
      List.nil_append]

/-- The text of a chunked body: the chunks, of which only the last one is without data. -/
structure ChunkedBody where
  chunks : List Chunk
  last : Chunk
  chunks_ne : ∀ c ∈ chunks, c.data ≠ []
  last_nil : last.data = []

namespace ChunkedBody

variable (b : ChunkedBody)

def all : List Chunk := b.chunks ++ [b.last]

def text : Bytes := b.all.flatMap Chunk.text

/-- What the body is without its chunks. -/
def content : Bytes := b.chunks.flatMap Chunk.data

theorem length_chunks_le : b.chunks.length ≤ b.text.length := by
  have hlength : ∀ cs : List Chunk, cs.length ≤ (cs.flatMap Chunk.text).length := fun cs => by
    induction cs with
    | nil => exact Nat.le_refl 0
    | cons c cs ih =>
      have := c.length_line_pos
      rw [List.flatMap_cons, List.length_cons, List.length_append, Chunk.text, List.length_append]
      omega
  rw [text, all, List.flatMap_append, List.length_append]
  exact Nat.le_add_right_of_le (hlength b.chunks)

end ChunkedBody

/-- One round of the loop. -/
theorem recvChunks_round {env : Env} {p : HttpResponseParser} (hok : p.error = .ok) {c : Chunk}
    (body : Bytes) {held more : Bytes} {stream : Stream} (h : Solid stream) (hheld : held.length ≤ env.buffSize)
    (htext : held ++ stream.flatten = c.text ++ more)
    (hline : c.line.length ≤ (gathered env held stream).1.length) :
    ∃ held' stream', afterData c.dataLine.length ((gathered env held stream).1.drop c.line.length)
        (gathered env held stream).2 = (held', stream') ∧
      held' ++ stream'.flatten = more ∧ Solid stream' ∧ held'.length ≤ env.buffSize ∧
      ∀ fuel, recvChunks env (fuel + 1) p body held stream =
        if c.data.length = 0 then .message ({ p with parser := lineParser c }, body ++ c.data) stream'
        else recvChunks env fuel { p with parser := lineParser c } (body ++ c.data) held' stream' := by
  obtain ⟨hsplit, hsolid, hfits⟩ := gathered_solid h hheld
  generalize hgathered : gathered env held stream = data at *
  obtain ⟨data, stream₁⟩ := data
  dsimp only at *
  have hall : data ++ stream₁.flatten = c.line ++ (c.dataLine ++ more) := by
    rw [hsplit, htext, Chunk.text, List.append_assoc]
  have hdata : data = c.line ++ data.drop c.line.length := by
    have htaken := congrArg (List.take c.line.length) hall
    rw [List.take_append_of_le_length hline, List.take_left] at htaken
    conv => lhs; rw [← List.take_append_drop c.line.length data, htaken]
  have hbehind : data.drop c.line.length ++ stream₁.flatten = c.dataLine ++ more := by
    have hrest := congrArg (List.drop c.line.length) hall
    rwa [List.drop_append_of_le_length hline, List.drop_left] at hrest
  generalize data.drop c.line.length = behind at hdata hbehind ⊢
  subst hdata
  rw [List.length_append] at hfits
  obtain ⟨hsplit', hsolid', hfits'⟩ := afterData_solid (n := c.dataLine.length) hsolid
    (show behind.length ≤ env.buffSize by omega)
  have hchunk := recvChunk_data env body hsolid hbehind
  generalize afterData c.dataLine.length behind stream₁ = after at *
  obtain ⟨held', stream'⟩ := after
  refine ⟨held', stream', rfl, ?_, hsolid', hfits', fun fuel => ?_⟩
  · rw [hsplit', hbehind, List.drop_left]
  · have hrecv := recvChunkLine_uncut hok (c := c) (by rw [List.length_append]; omega)
      (congrArg Prod.fst hgathered) (stream.flatten.length + 1)
    rw [recvChunks, hrecv, hgathered]
    have hlen : (lineParser c).contentLen = c.data.length := rfl
    have hdone : (lineParser c).chunksDone = decide (c.data.length = 0) := rfl
    simp only [hlen, hchunk, hdone, decide_eq_true_eq]

/-- **The chunks are put together**, whatever is behind them. -/
theorem recvChunks_uncut {env : Env} {last : Chunk} (hlast : last.data = []) {chunks : List Chunk}
    (hne : ∀ c ∈ chunks, c.data ≠ []) {p : HttpResponseParser} (hok : p.error = .ok) (body : Bytes)
    {held more : Bytes} {stream : Stream} (h : Solid stream) (hheld : held.length ≤ env.buffSize)
    (htext : held ++ stream.flatten = (chunks ++ [last]).flatMap Chunk.text ++ more)
    (huncut : uncut env (chunks ++ [last]) held stream = true) {fuel : Nat} (hfuel : chunks.length < fuel) :
    ∃ rest, rest.flatten <:+ more ∧ recvChunks env fuel p body held stream =
      .message ({ p with parser := lineParser last }, body ++ chunks.flatMap Chunk.data) rest := by
  obtain ⟨fuel, rfl⟩ := Nat.exists_eq_add_of_lt hfuel
  induction chunks generalizing p body held stream fuel with
  | nil =>
    have htext' : held ++ stream.flatten = last.text ++ more := by
      rw [htext, List.nil_append, List.flatMap_cons, List.flatMap_nil, List.append_nil]
    simp only [List.nil_append, uncut, Bool.and_eq_true, decide_eq_true_eq] at huncut
    obtain ⟨held', stream', -, hsplit, -, -, hround⟩ :=
      recvChunks_round hok body h hheld htext' huncut.1
    refine ⟨stream', ⟨held', hsplit⟩, ?_⟩
    rw [hround, if_pos (by rw [hlast]; rfl), hlast, List.flatMap_nil]
  | cons c chunks ih =>
    have htext' : held ++ stream.flatten = c.text ++ ((chunks ++ [last]).flatMap Chunk.text ++ more) := by
      rw [htext, List.cons_append, List.flatMap_cons, List.append_assoc]
    simp only [List.cons_append, uncut, Bool.and_eq_true, decide_eq_true_eq] at huncut
    obtain ⟨held', stream', hafter, hsplit, hsolid, hfits, hround⟩ :=
      recvChunks_round hok body h hheld htext' huncut.1
    have hdata : c.data.length ≠ 0 := fun hnil => hne c List.mem_cons_self (List.length_eq_zero_iff.mp hnil)
    obtain ⟨rest, hbehind, hrun⟩ := @ih (fun c' hc' => hne c' (List.mem_cons_of_mem _ hc'))
      { p with parser := lineParser c } hok (body ++ c.data) held' stream' hsolid hfits hsplit
      (by rw [← huncut.2, hafter]) fuel (by omega)
    refine ⟨rest, hbehind, ?_⟩
    rw [hround, if_neg hdata, List.length_cons, show chunks.length + 1 + fuel = chunks.length + fuel + 1 by omega, hrun,
      List.flatMap_cons, List.append_assoc]

/-! ## The response -/

theorem read_leaves {n : Nat} {stream : Stream} (h : Solid stream) :
    (Net.read n stream).1.length ≤ n ∧ Solid (Net.read n stream).2 := by
  cases stream with
  | nil => exact ⟨Nat.zero_le _, h⟩
  | cons s rest =>
    have hrest : Solid rest := fun s' hs' => h s' (List.mem_cons_of_mem _ hs')
    refine ⟨(List.length_take_le _ s).trans (Nat.min_le_left _ _), ?_⟩
    show Solid (if s.length ≤ min n intMax then rest else s.drop (min n intMax) :: rest)
    split
    · exact hrest
    · next hlt =>
      refine List.forall_mem_cons.mpr ⟨fun hnil => ?_, hrest⟩
      exact hlt (List.drop_eq_nil_iff.mp hnil)

/-- What the loop over the head leaves. -/
theorem recvHead_leaves {env : Env} {fuel : Nat} {p p' : HttpResponseParser} {held held' : Bytes}
    {stream rest : Stream} (h : Solid stream) (hheld : held.length ≤ env.buffSize)
    (hrecv : recvHead env fuel p held stream = .message (p', held') rest) :
    p'.error = .ok ∧ Solid rest ∧ held'.length ≤ env.buffSize := by
  induction fuel generalizing p held stream with
  | zero => cases hrecv
  | succ fuel ih =>
    obtain ⟨hlength, hsolid⟩ := read_leaves (n := env.buffSize - held.length) h
    rw [recvHead] at hrecv
    generalize Net.read (env.buffSize - held.length) stream = r at hrecv hlength hsolid
    obtain ⟨bytes, stream'⟩ := r
    dsimp only at hrecv hlength hsolid
    split at hrecv
    · cases hrecv
    split at hrecv
    · cases hrecv
    · next q held₁ nparse hexecute =>
      have hheld₁ : held₁.length ≤ env.buffSize := by
        obtain ⟨_, -, hexecute⟩ := Option.bind_eq_some_iff.mp hexecute
        obtain ⟨_, -, hexecute⟩ := Option.bind_eq_some_iff.mp hexecute
        cases hexecute
        rw [List.length_drop, List.length_append]
        omega
      split at hrecv
      · cases hrecv
      · next herror =>
        split at hrecv
        · cases hrecv
        split at hrecv
        · cases hrecv
          rw [HttpResponseParser.hasError, Bool.or_eq_true, not_or, bne_iff_ne, not_not] at herror
          exact ⟨herror.1, hsolid, hheld₁⟩
        · exact ih hsolid hheld₁ hrecv

/-- **A chunked response is received**: its body is what the chunks hold, without what is behind it. -/
theorem recvResponse_chunked {env : Env} {stream rest : Stream} {p : HttpResponseParser} {held more : Bytes}
    (h : Solid stream) (hhead : recvHead env (stream.flatten.length + 1) {} [] stream = .message (p, held) rest)
    (hchunked : p.parser.chunked = true) (b : ChunkedBody) (htext : held ++ rest.flatten = b.text ++ more)
    (huncut : uncut env b.all held rest = true) :
    ∃ rest', rest'.flatten <:+ more ∧
      recvResponse env stream = .message (setBody p.response b.content) rest' := by
  obtain ⟨hok, hsolid, hfits⟩ := recvHead_leaves h (Nat.zero_le _) hhead
  have hfuel : b.chunks.length < held.length + rest.flatten.length + 1 := by
    have hlength := congrArg List.length htext
    rw [List.length_append, List.length_append] at hlength
    have := b.length_chunks_le
    omega
  obtain ⟨rest', hbehind, hrun⟩ := recvChunks_uncut b.last_nil b.chunks_ne hok [] hsolid hfits htext huncut hfuel
  refine ⟨rest', hbehind, ?_⟩
  rw [recvResponse, hhead]
  simp only [hchunked, if_true, hrun]
  rfl

/-- Two chunks and the last one. -/
def greeting : ChunkedBody where
  chunks := [⟨ascii "5", ascii "hello", by decide, by decide +kernel, by decide +kernel, by decide⟩,
    ⟨ascii "06", ascii " world", by decide, by decide +kernel, by decide +kernel, by decide⟩]
  last := ⟨ascii "0", [], by decide, by decide +kernel, by decide +kernel, by decide⟩
  chunks_ne := by decide
  last_nil := rfl

/-- A response that is cut in the data of its chunks, and in a line end behind them. -/
def greetingReads : List Bytes :=
  [ascii "HTTP/1.1 200 OK\r\nTransfer-Encoding: chunked\r\n\r\n5\r\nhel", ascii "lo\r\n06\r\n world\r",
    ascii "\n0\r\n\r\nHTTP"]

/-- Whether the head is one of a chunked response, and what it leaves. -/
def leaves (env : Env) (stream : Stream) (held : Bytes) (rest : Stream) : Bool :=
  match recvHead env (stream.flatten.length + 1) {} [] stream with
  | .message (p, held') rest' => p.parser.chunked && held' == held && rest' == rest
  | _ => false

theorem exists_of_leaves {env : Env} {stream rest : Stream} {held : Bytes} (h : leaves env stream held rest = true) :
    ∃ p : HttpResponseParser, p.parser.chunked = true ∧
      recvHead env (stream.flatten.length + 1) {} [] stream = .message (p, held) rest := by
  unfold leaves at h
  split at h
  · next p held' rest' hhead =>
    simp only [Bool.and_eq_true, beq_iff_eq] at h
    obtain ⟨⟨hchunked, rfl⟩, rfl⟩ := h
    exact ⟨p, hchunked, hhead⟩
  · cases h

theorem recvResponse_greeting : ∃ response rest, response.body = ascii "hello world" ∧
    rest.flatten <:+ ascii "HTTP" ∧ recvResponse plainEnv greetingReads = .message response rest := by
  obtain ⟨p, hchunked, hhead⟩ := exists_of_leaves (show leaves plainEnv greetingReads (ascii "5\r\nhel")
    [ascii "lo\r\n06\r\n world\r", ascii "\n0\r\n\r\nHTTP"] = true by decide +kernel)
  obtain ⟨rest, hbehind, hrecv⟩ := @recvResponse_chunked plainEnv greetingReads _ p _ (ascii "HTTP") (by decide)
    hhead hchunked greeting (by decide +kernel) (by decide +kernel)
  exact ⟨_, rest, rfl, hbehind, hrecv⟩

end Nemo.Http.Client
