import Mathlib.Data.FinEnum
import Nemo.Http.Framing
import Nemo.Http.Harmless
import Nemo.Infra.Scan

/-!
# How a request arrives

`recvRequest` gives every read to the parser as soon as it is there. The scan of the whole text tells
what the rounds of its loop do (`recvHead_round`, `recvHead_iff`), so that two ways of cutting a
text into reads differ in what is seen of the tokens, and in nothing else.
-/

namespace Nemo.Http

open Infra Automaton Net

/-! ## Scans that are continued -/

theorem scanAct_appends : Appends scanAct := by
  intro a p m ts
  cases a with
  | done =>
    simp only [scanAct]
    split <;> simp
  | _ => simp [scanAct]

/-! ## One round -/

/-- The parser behind the reads `pre`, which are all used up. -/
structure Paused (env : Env) (reads pre : List Bytes) (p : HttpRequestParser) (q : Nat)
    (m : RequestMarks) (ts : List (Token Element)) : Prop where
  scan : scan env.uriRelaxed pre.flatten = ⟨.input, q, pre.flatten.length, (m, ts)⟩
  resumes : Resumes (Cuts.of reads) pre.flatten.length q p.parser m
  uriRelaxed : p.parser.uriRelaxed = env.uriRelaxed
  error : p.error = .ok

theorem paused_new (env : Env) (reads : List Bytes) :
    Paused env reads [] (.new env) httpParserStart {} [] where
  scan := rfl
  resumes := resumes_init _ _ _
  uriRelaxed := rfl
  error := rfl

theorem toInt32_buffSize (env : Env) : toInt32 env.buffSize = env.buffSize := by
  have hle := env.buffSize_le
  simp only [intMax] at hle
  exact Int.bmod_eq_of_le (by omega) (by omega)

/-- A read takes a piece that fits. -/
theorem read_fits {env : Env} {s : Bytes} (hfits : s.length ≤ env.buffSize) (rest : Stream) :
    Net.read (env.buffSize - ([] : Bytes).length) (s :: rest) = (s, rest) := by
  have hle : s.length ≤ min env.buffSize intMax := by
    have := env.buffSize_le
    omega
  simp only [Net.read, List.length_nil, Nat.sub_zero]
  rw [List.take_of_length_le hle, if_pos hle]

/--
**One round of the loop.** If every callback is accepted, the round does what the scan does; otherwise
no request is returned.
-/
theorem recvHead_round {env : Env} {reads pre ss : List Bytes} {s : Bytes} {p : HttpRequestParser}
    {q : Nat} {m : RequestMarks} {ts : List (Token Element)} (hreads : pre ++ s :: ss = reads)
    (hs : s ≠ []) (hfits : s.length ≤ env.buffSize) (h : Paused env reads pre p q m ts)
    {e : Exit Nat Scanning} (he : scan env.uriRelaxed (pre.flatten ++ s) = e) (fuel : Nat) :
    ∃ new, e.acc.2 = ts ++ new ∧
      ((∀ r ∈ new.map (Token.seen (Cuts.of reads)), accepts r = true) → e.halt ≠ .error →
        ∃ p' : HttpRequestParser,
          p'.request = fillAll (new.map (Token.seen (Cuts.of reads))) p.request ∧
          (e.halt = .stop → recvHead env (fuel + 1) p [] (s :: ss)
            = .message (p', s.drop (e.pos - pre.flatten.length)) ss) ∧
          (e.halt = .input → Paused env reads (pre ++ [s]) p' e.state e.acc.1 e.acc.2 ∧
            recvHead env (fuel + 1) p [] (s :: ss) = recvHead env fuel p' [] ss)) ∧
      (e.halt = .error ∨ ¬ (∀ r ∈ new.map (Token.seen (Cuts.of reads)), accepts r = true) →
        ∀ x rest, recvHead env (fuel + 1) p [] (s :: ss) ≠ .message x rest) := by
  have hends := scan_ends env.uriRelaxed (pre.flatten ++ s) he
  have hpos := exec_pos (machine env.uriRelaxed) scanAct q pre.flatten.length s (m, [])
  have hlt : (scanFrom env.uriRelaxed q pre.flatten.length s m).halt = .stop →
      pre.flatten.length < (scanFrom env.uriRelaxed q pre.flatten.length s m).pos := lt_pos_of_stop
  have hscan : scan env.uriRelaxed (pre.flatten ++ s) = _ := scanAct_appends.exec_append h.scan s
  rw [hscan] at he
  subst he
  have hcovers : (Cuts.of reads).Covers pre.flatten.length s := hreads ▸ Cuts.covers_of pre s ss
  obtain ⟨parser', hexec, hcs, huri, -, -, hresumes⟩ :=
    execute_follows hcovers hs h.resumes rfl
  rw [h.uriRelaxed] at hexec hcs hresumes
  unfold scanFrom at *
  generalize (machine env.uriRelaxed).exec scanAct q pre.flatten.length s (m, []) = e at *
  have hround : recvHead env (fuel + 1) p [] (s :: ss)
      = match onReports (e.acc.2.map (Token.seen (Cuts.of reads))) (p.request, .ok) with
        | none => .fault
        | some (request, error) =>
          if (HttpRequestParser.mk parser' request error).hasError then .null
          else if (↑(s.length - (e.pos - pre.flatten.length)) : Int) = env.buffSize then .null
          else if (HttpRequestParser.mk parser' request error).isFinished ≠ 0 then
            .message (⟨parser', request, error⟩, s.drop (e.pos - pre.flatten.length)) ss
          else
            recvHead env fuel ⟨parser', request, error⟩ (s.drop (e.pos - pre.flatten.length)) ss := by
    have hne : s.isEmpty = false := by cases s <;> simp_all
    have hexecute : p.execute s = (onReports (e.acc.2.map (Token.seen (Cuts.of reads)))
        (p.request, .ok)).map fun f =>
          (⟨parser', f.1, f.2⟩, s.drop (e.pos - pre.flatten.length), e.pos - pre.flatten.length) := by
      simp only [HttpRequestParser.execute, hexec, h.error, Option.bind_eq_bind, Option.bind_some]
      cases onReports (e.acc.2.map (Token.seen (Cuts.of reads))) (p.request, .ok) <;> rfl
    rw [recvHead, read_fits hfits]
    simp only [hne, Bool.false_eq_true, if_false, List.nil_append, hexecute, toInt32_buffSize]
    cases onReports (e.acc.2.map (Token.seen (Cuts.of reads))) (p.request, .ok) <;> rfl
  dsimp only at hends ⊢
  refine ⟨e.acc.2, rfl, fun hacc herr => ?_, fun hfail x rest hmessage => ?_⟩
  · have hreports : onReports (e.acc.2.map (Token.seen (Cuts.of reads))) (p.request, .ok) =
        some (fillAll (e.acc.2.map (Token.seen (Cuts.of reads))) p.request, .ok) :=
      callbacks.all_of_accepts hacc
    rw [hreports] at hround
    dsimp only at hround
    have hcs' : parser'.cs = e.state := by rw [hcs, if_neg herr]
    have hne0 : e.state ≠ httpParserError := by
      cases hhalt : e.halt with
      | error => exact absurd hhalt herr
      | input => exact (hresumes hhalt).cs_ne
      | stop =>
        rcases hends.2 hhalt with ⟨hstate, -⟩ | ⟨hstate, -⟩ <;> rw [hstate] <;> decide
    have hnoError : (HttpRequestParser.mk parser'
        (fillAll (e.acc.2.map (Token.seen (Cuts.of reads))) p.request) .ok).hasError = false := by
      simp [HttpRequestParser.hasError, HttpParser.hasError, hcs', hne0]
    rw [hnoError, if_neg Bool.false_ne_true] at hround
    have hbuff := env.buffSize_pos
    refine ⟨⟨parser', fillAll (e.acc.2.map (Token.seen (Cuts.of reads))) p.request, .ok⟩, rfl,
      fun hstop => ?_, fun hinput => ?_⟩
    · -- the machine is in a final state
      have hfinal : httpParserFirstFinal ≤ e.state := by
        rcases hends.2 hstop with ⟨hstate, -⟩ | ⟨hstate, -⟩ <;> rw [hstate] <;> decide
      have hfinished : httpParserFinish parser' = 1 := by
        simp [httpParserFinish, HttpParser.hasError, HttpParser.isFinished, hcs', hne0, hfinal]
      have hread := hlt hstop
      have hpositive := List.length_pos_iff.mpr hs
      rw [hround, if_neg (by omega), HttpRequestParser.isFinished, hfinished, if_pos (by decide)]
    · have hend := hpos.2.2 hinput
      have hrunning : ¬ httpParserFirstFinal ≤ e.state := Nat.not_le.mpr (hends.1 hinput)
      have hfinished : httpParserFinish parser' = 0 := by
        simp [httpParserFinish, HttpParser.hasError, HttpParser.isFinished, hcs', hne0, hrunning]
      rw [hround, if_neg (by omega), HttpRequestParser.isFinished, hfinished,
        if_neg (by decide), List.drop_eq_nil_of_le (by omega)]
      refine ⟨⟨?_, ?_, huri.trans h.uriRelaxed, rfl⟩, rfl⟩
      · have hflat : (pre ++ [s]).flatten = pre.flatten ++ s := by simp
        rw [hflat, hscan, hinput, hend, List.length_append]
      · have hflat : (pre ++ [s]).flatten.length = pre.flatten.length + s.length := by simp
        rw [hflat]
        exact hresumes hinput
  · -- an error stays, and ends the loop
    rw [hmessage] at hround
    cases hf : onReports (e.acc.2.map (Token.seen (Cuts.of reads))) (p.request, .ok) with
    | none =>
      rw [hf] at hround
      cases hround
    | some f =>
      obtain ⟨request, error⟩ := f
      rw [hf] at hround
      have hbad : (HttpRequestParser.mk parser' request error).hasError = true := by
        rw [HttpRequestParser.hasError, Bool.or_eq_true, bne_iff_ne]
        rcases hfail with herr | hacc
        · rw [if_pos herr] at hcs
          exact .inr (by rw [HttpParser.hasError, hcs, beq_iff_eq])
        · exact .inl fun hok => hacc (callbacks.accepts_of_all hf hok)
      dsimp only at hround
      rw [if_pos hbad] at hround
      cases hround

/-! ## All rounds -/

/-- The parser behind reads whose callbacks were all accepted. -/
structure Accepted (cuts : Cuts) (p : HttpRequestParser) (ts : List (Token Element)) : Prop where
  accepts : ∀ r ∈ ts.map (Token.seen cuts), accepts r = true
  request : p.request = fillAll (ts.map (Token.seen cuts)) {}

theorem mem_seen_append {cuts : Cuts} {ts new : List (Token Element)} {r : Report Element} :
    r ∈ (ts ++ new).map (Token.seen cuts) ↔
      r ∈ ts.map (Token.seen cuts) ∨ r ∈ new.map (Token.seen cuts) := by
  rw [List.map_append, List.mem_append]

theorem Accepted.append {cuts : Cuts} {p p' : HttpRequestParser} {ts new : List (Token Element)}
    (h : Accepted cuts p ts) (hnew : ∀ r ∈ new.map (Token.seen cuts), Http.accepts r = true)
    (hp' : p'.request = fillAll (new.map (Token.seen cuts)) p.request) :
    Accepted cuts p' (ts ++ new) := by
  refine ⟨fun r hr => (mem_seen_append.mp hr).elim (h.accepts r) (hnew r), ?_⟩
  rw [hp', h.request, List.map_append, fillAll, fillAll, fillAll, List.foldl_append]

/--
**The loop.** The head is complete in the read `s`: if every callback is accepted the loop ends there, with
the request of the callbacks and with what is left of `s`; otherwise it returns no request.
-/
theorem recvHead_reads {env : Env} {reads pre xs rest : List Bytes} {s : Bytes}
    {p : HttpRequestParser} {q : Nat} {m : RequestMarks} {ts : List (Token Element)}
    (hreads : pre ++ (xs ++ s :: rest) = reads)
    (hfits : ∀ s' ∈ xs ++ [s], s' ≠ [] ∧ s'.length ≤ env.buffSize)
    (h : Paused env reads pre p q m ts) (hacc : Accepted (Cuts.of reads) p ts)
    (hxs : (scan env.uriRelaxed (pre ++ xs).flatten).halt = .input) {e : Exit Nat Scanning}
    (he : scan env.uriRelaxed ((pre ++ xs).flatten ++ s) = e) (hstop : e.halt = .stop)
    {fuel : Nat} (hfuel : xs.length < fuel) :
    ((∀ r ∈ e.acc.2.map (Token.seen (Cuts.of reads)), accepts r = true) →
      ∃ p', Accepted (Cuts.of reads) p' e.acc.2 ∧
        recvHead env fuel p [] (xs ++ s :: rest)
          = .message (p', s.drop (e.pos - (pre ++ xs).flatten.length)) rest) ∧
    (¬ (∀ r ∈ e.acc.2.map (Token.seen (Cuts.of reads)), accepts r = true) →
      ∀ x rest', recvHead env fuel p [] (xs ++ s :: rest) ≠ .message x rest') := by
  induction xs generalizing pre p q m ts fuel with
  | nil =>
    obtain ⟨fuel, rfl⟩ : ∃ n, fuel = n + 1 := ⟨fuel - 1, by rw [List.length_nil] at hfuel; omega⟩
    rw [List.append_nil] at he ⊢
    obtain ⟨hne, hfit⟩ := hfits s (by simp)
    obtain ⟨new, hnew, hok, hbad⟩ := recvHead_round hreads hne hfit h he fuel
    rw [hnew]
    refine ⟨fun hall => ?_, fun hnot => hbad (.inr fun hall => hnot fun r hr => ?_)⟩
    · have haccNew : ∀ r ∈ new.map (Token.seen (Cuts.of reads)), accepts r = true :=
        fun r hr => hall r (mem_seen_append.mpr (.inr hr))
      obtain ⟨p', hp', hmessage, -⟩ := hok haccNew (by rw [hstop]; nofun)
      exact ⟨p', hacc.append haccNew hp', hmessage hstop⟩
    · exact (mem_seen_append.mp hr).elim (hacc.accepts r) (hall r)
  | cons s₁ xs ih =>
    rw [List.length_cons] at hfuel
    obtain ⟨fuel, rfl⟩ : ∃ n, fuel = n + 1 := ⟨fuel - 1, by omega⟩
    have happend : pre ++ s₁ :: xs = pre ++ [s₁] ++ xs := by simp
    have hsnoc : (pre ++ [s₁]).flatten = pre.flatten ++ s₁ := by simp
    rw [happend] at he hxs ⊢
    rw [List.cons_append] at hreads ⊢
    obtain ⟨hne, hfit⟩ := hfits s₁ (by simp)
    obtain ⟨new, hnew, hok, hbad⟩ := recvHead_round hreads hne hfit h rfl fuel
    -- the first read is used up, as the scan goes on behind it
    have hinput : (scan env.uriRelaxed (pre.flatten ++ s₁)).halt = .input := by
      by_contra hhalt
      rw [List.flatten_append, hsnoc, scan, scanFrom, exec_append_of_halt hhalt] at hxs
      exact hhalt hxs
    by_cases haccNew : ∀ r ∈ new.map (Token.seen (Cuts.of reads)), accepts r = true
    · obtain ⟨p', hp', -, hgoes⟩ := hok haccNew (by rw [hinput]; nofun)
      obtain ⟨hpaused, hrecv⟩ := hgoes hinput
      rw [hrecv]
      rw [hnew] at hpaused
      exact ih (by rw [← hreads]; simp) (fun s' hs' => hfits s' (List.mem_cons_of_mem _ hs'))
        hpaused (hacc.append haccNew hp') hxs he (Nat.lt_of_succ_lt_succ hfuel)
    · refine ⟨fun hall => absurd (fun r hr => ?_) haccNew, fun _ => hbad (.inr haccNew)⟩
      -- the tokens of the first read are tokens of the head
      obtain ⟨more, hmore⟩ : ∃ more,
          (scan env.uriRelaxed (pre.flatten ++ s₁ ++ (xs.flatten ++ s))).acc.2 =
            (scan env.uriRelaxed (pre.flatten ++ s₁)).acc.2 ++ more :=
        scanAct_appends.exec_prefix hinput _
      have hwhole : pre.flatten ++ s₁ ++ (xs.flatten ++ s) = (pre ++ [s₁] ++ xs).flatten ++ s := by
        simp
      rw [hwhole, he, hnew, List.append_assoc] at hmore
      exact hall r (by rw [hmore]; exact mem_seen_append.mpr (.inr (mem_seen_append.mpr (.inl hr))))

/-! ## The body -/

/-- A body of which `k` bytes are still to be read. -/
theorem recvBody_more {n k : Nat} {held bytes : Bytes} {stream rest : Stream}
    (hk : held.length + k = n) (hpos : 0 < k) (hread : readFixSize k stream = (some bytes, rest)) :
    recvBody n held stream = some (held ++ bytes, rest) := by
  have hnat : ((n : Int) - (held.length : Int)).toNat = k := by omega
  have hmin : (min (held.length : Int) (n : Int)).toNat = held.length := by omega
  unfold recvBody
  extract_lets len bodyLen
  have hbodyLen : bodyLen > 0 := by
    show (n : Int) - held.length > 0
    omega
  rw [if_pos hbodyLen, show bodyLen.toNat = k from hnat, hread,
    show len.toNat = held.length from hmin, List.take_length]
  rfl

/-- A body that is held. -/
theorem recvBody_held {n : Nat} {held : Bytes} {stream : Stream} (h : n ≤ held.length) :
    recvBody n held stream = some (held.take n, stream) := by
  have hmin : (min (held.length : Int) (n : Int)).toNat = n := by omega
  unfold recvBody
  extract_lets len bodyLen
  have hbodyLen : ¬ bodyLen > 0 := by
    show ¬ (n : Int) - held.length > 0
    omega
  rw [if_neg hbodyLen, show len.toNat = n from hmin]

/-- `recvBody` takes the body from what is held and from what is still to come. -/
theorem recvBody_solid {n : Nat} {held : Bytes} {rest : Stream} (hrest : Solid rest)
    (hn : n ≤ (held ++ rest.flatten).length)
    (hint : held.length < n → 0 < toInt32 (n - held.length : Nat)) :
    recvBody n held rest
      = some ((held ++ rest.flatten).take n, skip (n - held.length) rest) := by
  rw [List.length_append] at hn
  by_cases hlt : held.length < n
  · have hread := readFixSize_solid (n := n - held.length) hrest (by omega) (hint hlt)
    rw [recvBody_more (by omega) (by omega) hread, List.take_append,
      List.take_of_length_le (l := held) (by omega)]
  · rw [recvBody_held (by omega), List.take_append_of_le_length (by omega),
      Nat.sub_eq_zero_of_le (by omega), skip_zero hrest]

/-- The length of the body, as `recvRequest` reads it. -/
def bodyLen (env : Env) (request : HttpRequest) : Int :=
  toInt64 (request.headers.getAsSize env.lexicalCast (ascii "content-length"))

theorem recvRequest_body {env : Env} {stream rest rest' : Stream} {p : HttpRequestParser}
    {held body : Bytes} {n : Int}
    (hhead : recvHead env (stream.flatten.length + 1) (.new env) [] stream
      = .message (p, held) rest)
    (hn : bodyLen env p.request = n) (hpos : n > 0)
    (hbody : recvBody n held rest = some (body, rest')) :
    recvRequest env stream = .message { p.request with body := body }.init rest' := by
  have hlen : toInt64 (p.getContentLength env) = n := hn
  unfold recvRequest
  rw [hhead]
  show (if toInt64 (p.getContentLength env) > 0 then _ else _) = _
  rw [hlen, if_pos hpos, hbody]

theorem recvRequest_none {env : Env} {stream rest : Stream} {p : HttpRequestParser}
    {held : Bytes} {n : Int}
    (hhead : recvHead env (stream.flatten.length + 1) (.new env) [] stream
      = .message (p, held) rest)
    (hn : bodyLen env p.request = n) (hpos : n > 0)
    (hbody : recvBody n held rest = none) :
    recvRequest env stream = .null := by
  have hlen : toInt64 (p.getContentLength env) = n := hn
  unfold recvRequest
  rw [hhead]
  show (if toInt64 (p.getContentLength env) > 0 then _ else _) = _
  rw [hlen, if_pos hpos, hbody]

theorem recvRequest_head {env : Env} {stream rest : Stream} {p : HttpRequestParser}
    {held : Bytes}
    (hhead : recvHead env (stream.flatten.length + 1) (.new env) [] stream
      = .message (p, held) rest)
    (hpos : ¬ bodyLen env p.request > 0)  :
    recvRequest env stream = .message p.request.init rest := by
  have hlen : toInt64 (p.getContentLength env) = bodyLen env p.request := rfl
  unfold recvRequest
  rw [hhead]
  show (if toInt64 (p.getContentLength env) > 0 then _ else _) = _
  rw [hlen, if_neg hpos]

/-- The request that is returned for the head `request` when the bytes `text` follow. -/
def withBody (env : Env) (request : HttpRequest) (text : Bytes) : HttpRequest :=
  if bodyLen env request > 0 then
    { request with body := text.take (bodyLen env request).toNat }.init
  else request.init

/-- A request that is returned for the head `q`. -/
def Completes (q request : HttpRequest) : Prop :=
  request = q.init ∨ ∃ body, request = { q with body := body }.init

/-- The body and `init` leave the other members as they are. -/
theorem eq_of_completes {q q' request : HttpRequest}
    (hq : q.close = q'.close ∧ q.body = q'.body) (h : Completes q request)
    (h' : Completes q' request) : q = q' := by
  have hinit : ∀ r : HttpRequest, r.init = { r with close := r.init.close } := by
    intro r
    unfold HttpRequest.init
    dsimp only
    split <;> rfl
  have hkept : ∀ r : HttpRequest, Completes r request →
      ∃ close body, request = { r with close := close, body := body } := by
    rintro r (rfl | ⟨body, rfl⟩)
    · rw [hinit]
      exact ⟨_, _, rfl⟩
    · rw [hinit]
      exact ⟨_, _, rfl⟩
  obtain ⟨close, body, h₁⟩ := hkept q h
  obtain ⟨close', body', h₂⟩ := hkept q' h'
  rw [h₁] at h₂
  obtain ⟨⟩ := q
  obtain ⟨⟩ := q'
  simp only [HttpRequest.mk.injEq] at h₂ hq ⊢
  obtain ⟨hmethod, hversion, -, hpath, hquery, hfragment, -, hheaders⟩ := h₂
  exact ⟨hmethod, hversion, hq.1, hpath, hquery, hfragment, hq.2, hheaders⟩

/-- `recvRequest` behind the head. -/
theorem recvRequest_of_head {env : Env} {stream rest : Stream} {p : HttpRequestParser}
    {held : Bytes} (hhead : recvHead env (stream.flatten.length + 1) (.new env) [] stream
      = .message (p, held) rest) (hrest : Solid rest)
    (hn : bodyLen env p.request ≤ (held ++ rest.flatten).length)
    (hint : bodyLen env p.request > held.length →
      0 < toInt32 (bodyLen env p.request - held.length)) :
    recvRequest env stream = .message (withBody env p.request (held ++ rest.flatten))
      (skip ((bodyLen env p.request).toNat - held.length) rest) := by
  by_cases hpos : bodyLen env p.request > 0
  · obtain ⟨n, hn'⟩ : ∃ n : Nat, bodyLen env p.request = n :=
      ⟨(bodyLen env p.request).toNat, by omega⟩
    rw [hn'] at hn hint hpos
    have hbody : recvBody n held rest
        = some ((held ++ rest.flatten).take n, skip (n - held.length) rest) :=
      recvBody_solid hrest (by omega)
        (fun hlt => by rw [Nat.cast_sub (by omega)]; exact hint (by omega))
    rw [recvRequest_body hhead hn' hpos hbody, withBody, if_pos (by rw [hn']; exact hpos), hn',
      Int.toNat_natCast]
  · have h0 : (bodyLen env p.request).toNat - held.length = 0 := by omega
    rw [recvRequest_head hhead hpos, withBody, if_neg hpos, h0, skip_zero hrest]

/-- A request that is returned has a head, and a body if it is to have one. -/
theorem head_of_recvRequest {env : Env} {stream rest : Stream} {request : HttpRequest}
    (h : recvRequest env stream = .message request rest) :
    ∃ p held rest', recvHead env (stream.flatten.length + 1) (.new env) [] stream
        = .message (p, held) rest' ∧ Completes p.request request ∧
      (bodyLen env p.request > 0 → recvBody (bodyLen env p.request) held rest' ≠ none) := by
  cases hhead : recvHead env (stream.flatten.length + 1) (.new env) [] stream with
  | null =>
    rw [recvRequest, hhead] at h
    cases h
  | fault =>
    rw [recvRequest, hhead] at h
    cases h
  | message x rest' =>
    obtain ⟨p, held⟩ := x
    refine ⟨p, held, rest', rfl, ?_⟩
    by_cases hpos : bodyLen env p.request > 0
    · cases hbody : recvBody (bodyLen env p.request) held rest' with
      | none =>
        rw [recvRequest_none hhead rfl hpos hbody] at h
        cases h
      | some x =>
        obtain ⟨body, rest''⟩ := x
        rw [recvRequest_body hhead rfl hpos hbody] at h
        cases h
        exact ⟨.inr ⟨body, rfl⟩, fun _ => nofun⟩
    · rw [recvRequest_head hhead hpos] at h
      cases h
      exact ⟨.inl rfl, fun h => absurd h hpos⟩

/-- A body that is not there cannot be read. -/
theorem recvBody_nil {n : Nat} {held : Bytes} (hlt : held.length < n) :
    recvBody n held [] = none := by
  obtain ⟨k, hk⟩ : ∃ k, n - held.length = k + 1 := ⟨n - held.length - 1, by omega⟩
  have hloop : readLoop (k + 1) (k + 1) [] = (none, []) := rfl
  have hread : readFixSize (k + 1) [] = (none, []) := by
    unfold readFixSize
    rw [hloop]
    show ((if _ then none else none), _) = _
    rw [ite_self]
  have hnat : ((n : Int) - (held.length : Int)).toNat = k + 1 := by omega
  unfold recvBody
  extract_lets len bodyLen
  have hbodyLen : bodyLen > 0 := by
    show (n : Int) - held.length > 0
    omega
  rw [if_pos hbodyLen, show bodyLen.toNat = k + 1 from hnat, hread]
  rfl

/-! ## Independence of the reads -/

theorem Tokens.append {xs : Bytes} {ts : List (Token Element)} (h : Tokens xs ts) (ys : Bytes) :
    Tokens (xs ++ ys) ts where
  within t ht := (h.within t ht).mono (by rw [List.length_append]; exact Nat.le_add_right _ _)
  unique := h.unique
  version := by
    intro i p ht
    obtain ⟨h8, hend⟩ := h.version i p ht
    have hp : p < xs.length := by
      by_contra hge
      rw [List.getElem?_eq_none (by omega)] at hend
      simp at hend
    rw [List.getElem?_append_left hp]
    exact ⟨h8, hend⟩

/-- **What `recvRequest` returns for these reads**, when a scan of their text stops. -/
theorem recvHead_iff {env : Env} {reads : List Bytes}
    (hfits : ∀ s ∈ reads, s ≠ [] ∧ s.length ≤ env.buffSize) {e : Exit Nat Scanning}
    (he : scan env.uriRelaxed reads.flatten = e) (hstop : e.halt = .stop) {fuel : Nat}
    (hfuel : reads.length < fuel) :
    ((∀ r ∈ e.acc.2.map (Token.seen (Cuts.of reads)), accepts r = true) →
      ∃ p held rest, recvHead env fuel (.new env) [] reads = .message (p, held) rest ∧
        p.request = fillAll (e.acc.2.map (Token.seen (Cuts.of reads))) {} ∧
        held ++ rest.flatten = reads.flatten.drop e.pos ∧ Solid rest ∧
        rest.length < reads.length) ∧
    (¬ (∀ r ∈ e.acc.2.map (Token.seen (Cuts.of reads)), accepts r = true) →
      ∀ x rest, recvHead env fuel (.new env) [] reads ≠ .message x rest) := by
  obtain ⟨xs, s, rest, rfl, hxs, hs⟩ := exists_stop (M := machine env.uriRelaxed) (g := scanAct)
    (q := httpParserStart) (p := 0) (s := ({}, [])) [] reads rfl
    (by rw [List.nil_append]; exact (congrArg Exit.halt he).trans hstop)
  rw [List.nil_append] at hxs hs
  replace hs : scan env.uriRelaxed (xs.flatten ++ s) = e := by
    rw [← he]
    exact hs
  rw [List.length_append, List.length_cons] at hfuel
  obtain ⟨hok, hbad⟩ := recvHead_reads
    (show [] ++ (xs ++ s :: rest) = xs ++ s :: rest from rfl)
    (fun s' hs' => hfits s' (by simp at hs' ⊢; tauto)) (paused_new env _)
    ⟨by simp, rfl⟩ hxs hs hstop
    (show xs.length < fuel by omega)
  refine ⟨fun hacc => ?_, hbad⟩
  obtain ⟨p, hp, hmessage⟩ := hok hacc
  refine ⟨p, _, rest, hmessage, hp.request, ?_, fun s' hs' => (hfits s' (by simp [hs'])).1,
    by rw [List.length_append, List.length_cons]; omega⟩
  have hpos := exec_pos_append hxs s
  rw [Nat.zero_add, Nat.zero_add] at hpos
  replace hpos : xs.flatten.length ≤ e.pos ∧ e.pos ≤ (xs.flatten ++ s).length := by
    rw [← hs]
    exact hpos
  rw [List.nil_append, List.flatten_append, List.flatten_cons, ← List.append_assoc,
    List.drop_append_of_le_length hpos.2, List.drop_append, List.drop_of_length_le hpos.1,
    List.nil_append]

theorem stop_of_single {env : Env} {text : Bytes} (hne : text ≠ [])
    (hfits : text.length ≤ env.buffSize) {fuel : Nat} {x : HttpRequestParser × Bytes}
    {rest : Stream} (h : recvHead env (fuel + 1) (.new env) [] [text] = .message x rest) :
    (scan env.uriRelaxed text).halt = .stop := by
  obtain ⟨new, hnew, hok, hbad⟩ := recvHead_round
    (show [] ++ [text] = [text] from rfl) hne hfits (paused_new env [text]) rfl fuel
  simp only [List.flatten_nil, List.nil_append] at hok hbad
  cases hhalt : (scan env.uriRelaxed text).halt with
  | stop => rfl
  | error => exact absurd h (hbad (.inl hhalt) x rest)
  | input =>
    by_cases hacc : ∀ r ∈ new.map (Token.seen (Cuts.of [text])), accepts r = true
    · -- nothing comes after the only read
      obtain ⟨p', -, -, hgoes⟩ := hok hacc (by rw [hhalt]; nofun)
      rw [(hgoes hhalt).2] at h
      cases fuel <;> cases h
    · exact absurd h (hbad (.inr hacc) x rest)

/--
**The reads make no difference**, exactly when their cuts are harmless: what `recvRequest` returns for a
text that comes in one read it also returns for these reads of the text.
-/
theorem recvRequest_reads_iff {env : Env} {reads : List Bytes} {request : HttpRequest}
    {rest : Stream} (hsolid : Solid reads) (hsize : reads.flatten.length ≤ env.buffSize)
    (hone : recvRequest env [reads.flatten] = .message request rest) :
    (∃ rest', recvRequest env reads = .message request rest') ↔
      Harmless env.uriRelaxed reads := by
  have hint := env.buffSize_le
  simp only [intMax] at hint
  obtain ⟨p, held, rest₁, hhead, hcompletes, hbody⟩ := head_of_recvRequest hone
  have hne : reads.flatten ≠ [] := by
    intro hnil
    rw [hnil] at hhead
    simp [recvHead, Net.read] at hhead
  have hfits : ∀ s ∈ reads, s ≠ [] ∧ s.length ≤ env.buffSize := fun s hs =>
    ⟨hsolid s hs, Nat.le_trans (List.Sublist.length_le (List.sublist_flatten_of_mem hs)) hsize⟩
  have hstop := stop_of_single hne hsize hhead
  have htokens : Tokens reads.flatten (tokens env.uriRelaxed reads.flatten) := by
    have h := (scan_tokens rfl hstop).append
      (reads.flatten.drop (scan env.uriRelaxed reads.flatten).pos)
    rwa [List.take_append_drop] at h
  -- the single read
  obtain ⟨hok₁, hbad₁⟩ := recvHead_iff
    (show ∀ s ∈ [reads.flatten], s ≠ [] ∧ s.length ≤ env.buffSize from
      fun s hs => by rw [List.mem_singleton.mp hs]; exact ⟨hne, hsize⟩) (by simp) hstop
    (show [reads.flatten].length < [reads.flatten].flatten.length + 1 by
      simpa using List.length_pos_iff.mpr hne)
  have hwhole : ∀ r ∈ (tokens env.uriRelaxed reads.flatten).map
      (Token.seen (Cuts.of [reads.flatten])), accepts r = true := by
    by_contra hacc
    exact hbad₁ hacc _ _ hhead
  obtain ⟨p₁, held₁, rest₁', hhead₁, hp₁, hheld₁, hsolid₁, hrest₁⟩ := hok₁ hwhole
  rw [hhead₁] at hhead
  cases hhead
  -- these reads
  obtain ⟨hok, hbad⟩ := recvHead_iff hfits rfl hstop
    (Nat.lt_succ_of_le (length_le_flatten hsolid))
  rw [← sameRequest_iff (by omega) htokens hwhole]
  constructor
  · rintro ⟨rest', h⟩
    obtain ⟨p', held', rest₂, hhead', hcompletes', -⟩ := head_of_recvRequest h
    have hacc : ∀ r ∈ (tokens env.uriRelaxed reads.flatten).map (Token.seen (Cuts.of reads)),
        accepts r = true := by
      by_contra hacc
      exact hbad hacc _ _ hhead'
    obtain ⟨p₂, held₂, rest₂', hhead₂, hp₂, -⟩ := hok hacc
    rw [hhead₂] at hhead'
    cases hhead'
    refine ⟨hacc, ?_⟩
    rw [hp₂] at hcompletes'
    rw [hp₁] at hcompletes
    refine eq_of_completes ?_ hcompletes' hcompletes
    have h₂ := fillAll_close ((tokens env.uriRelaxed reads.flatten).map
      (Token.seen (Cuts.of reads))) {}
    have h₁ := fillAll_close ((tokens env.uriRelaxed reads.flatten).map
      (Token.seen (Cuts.of [reads.flatten]))) {}
    exact ⟨h₂.1.trans h₁.1.symm, h₂.2.trans h₁.2.symm⟩
  · rintro ⟨hacc, hfill⟩
    obtain ⟨p₂, held₂, rest₂, hhead₂, hp₂, hheld₂, hsolid₂, -⟩ := hok hacc
    have hsame : p₂.request = p.request := by
      rw [hp₂, hp₁]
      exact hfill
    obtain rfl : rest₁ = [] := by
      cases rest₁ with
      | nil => rfl
      | cons => simp at hrest₁
    have hn : bodyLen env p.request ≤ held.length := by
      by_contra hgt
      obtain ⟨n, hn⟩ : ∃ n : Nat, bodyLen env p.request = n :=
        ⟨(bodyLen env p.request).toNat, by omega⟩
      refine hbody (by omega) ?_
      rw [hn]
      exact recvBody_nil (by omega)
    have hheld : held = reads.flatten.drop (scan env.uriRelaxed reads.flatten).pos := by
      simpa using hheld₁
    have hrecv₃ := recvRequest_of_head hhead₁ (show Solid [] from List.forall_mem_nil _)
      (by simpa using hn) (fun hgt => by omega)
    rw [hone, Received.message.injEq] at hrecv₃
    have hlength : held.length ≤ reads.flatten.length := by
      rw [hheld, List.length_drop]
      omega
    have hrecv := recvRequest_of_head hhead₂ hsolid₂
      (by rw [hheld₂, ← hheld, hsame]; exact hn)
      (fun hgt => by
        rw [hsame] at hgt ⊢
        unfold toInt32
        rw [Int.bmod_eq_of_le (by omega) (by omega)]
        omega)
    refine ⟨skip ((bodyLen env p₂.request).toNat - held₂.length) rest₂, ?_⟩
    rw [hrecv, hrecv₃.1, hsame, hheld₂, ← hheld, List.flatten_nil, List.append_nil]

/-! ## Cuts that do nothing, and cuts that do harm -/

/-- The number that a string of digits stands for. -/
def decimal (text : Bytes) : Option (Fin (2 ^ 64)) :=
  let n := text.foldl (fun n b => 10 * n + (b.toNat - 48)) 0
  if h : text ≠ [] ∧ (∀ b ∈ text, 48 ≤ b.toNat ∧ b.toNat ≤ 57) ∧ n < 2 ^ 64 then some ⟨n, h.2.2⟩
  else none

/-- The default buffer size. -/
def plainEnv : Env where
  lexicalCast := decimal
  buffSize := 4096
  buffSize_pos := by decide
  buffSize_le := by decide
  uriRelaxed := false
  queryStart := 0

def Received.isMessage {α : Type} : Received α → Bool
  | .message _ _ => true
  | _ => false

theorem exists_of_isMessage {α : Type} {r : Received α} (h : r.isMessage = true) :
    ∃ a rest, r = .message a rest := by
  cases r with
  | message a rest => exact ⟨a, rest, rfl⟩
  | null => cases h
  | fault => cases h

/-- A request that is cut between two lines. -/
def betweenLines : List Bytes := [ascii "GET /a?b HTTP/1.1\r\n", ascii "Host: h\r\n\r\n"]

theorem recvRequest_betweenLines : ∃ request rest rest',
    recvRequest plainEnv [betweenLines.flatten] = .message request rest ∧
      recvRequest plainEnv betweenLines = .message request rest' := by
  obtain ⟨request, rest, hone⟩ := exists_of_isMessage
    (show (recvRequest plainEnv [betweenLines.flatten]).isMessage = true by decide +kernel)
  have htokens : tokens false betweenLines.flatten = [
      .element .requestMethod 0 3, .element .requestPath 4 6, .kept .queryString 7 8,
      .element .requestUri 4 8, .element .httpVersion 9 17, .field 19 23 25 26,
      .done .headerDone 29] := by
    decide +kernel
  have hharmless : Harmless plainEnv.uriRelaxed betweenLines := by
    have hlines : headerLines (Cuts.of betweenLines) betweenLines.flatten
          (tokens false betweenLines.flatten)
        = headerLines (Cuts.of [betweenLines.flatten]) betweenLines.flatten
          (tokens false betweenLines.flatten) := by
      decide +kernel
    refine ⟨?_, ?_, ?_, ?_, fun name => congrArg (headerOf name) hlines⟩
    all_goals rw [show plainEnv.uriRelaxed = false from rfl, htokens]
    · intro i fpc h
      simp at h
      obtain ⟨rfl, rfl⟩ := h
      decide +kernel
    · intro i fpc h
      simp at h
      obtain ⟨rfl, rfl⟩ := h
      decide +kernel
    · intro e he i fpc h
      simp at he h
      rcases he with rfl | rfl <;> simp at h
      obtain ⟨rfl, rfl⟩ := h
      decide +kernel
    · intro i fpc h
      simp at h
      obtain ⟨rfl, rfl⟩ := h
      decide +kernel
  obtain ⟨rest', h⟩ := (recvRequest_reads_iff (by decide) (by decide) hone).mpr hharmless
  exact ⟨request, rest, rest', hone, h⟩

/-- What is expected: the reads make no difference. -/
def ReadsAlike : Prop :=
  ∀ (env : Env) (reads : List Bytes) (request : HttpRequest) (rest : Stream), Solid reads →
    reads.flatten.length ≤ env.buffSize →
    recvRequest env [reads.flatten] = .message request rest →
    ∃ rest', recvRequest env reads = .message request rest'

/-- A request that is cut in its version. -/
def inVersion : List Bytes := [ascii "GET / H", ascii "TTP/1.1\r\n\r\n"]

theorem not_readsAlike : ¬ ReadsAlike := by
  intro hclaim
  obtain ⟨request, rest, hone⟩ := exists_of_isMessage
    (show (recvRequest plainEnv [inVersion.flatten]).isMessage = true by decide +kernel)
  obtain ⟨rest', h⟩ := hclaim plainEnv inVersion request rest (by decide) (by decide) hone
  have hnull : (recvRequest plainEnv inVersion).isMessage = false := by decide +kernel
  rw [h] at hnull
  cases hnull

end Nemo.Http
