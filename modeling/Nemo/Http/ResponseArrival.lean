import Nemo.Http.Arrival
import Nemo.Http.ResponseHarmless

/-!
# How a response arrives

`recvResponse` gives every read to the parser as soon as it is there, as `recvRequest` does. The scan of the
whole text tells what the rounds of its loop do, as long as the response is not chunked.

`recvResponse_reads_iff` — a response that comes in these reads is the one that comes in a single read
exactly when the cuts are harmless
-/

namespace Nemo.Http.Client

open Infra Automaton Net

/-! ## Scans that are continued -/

theorem scanAct_appends : Appends scanAct := by
  intro a p m ts
  cases a <;> simp [scanAct]

/-- What has been read of chunks is not forgotten. -/
theorem exec_chunked {q p : Nat} {xs : Bytes} {y : Scanning} (h : y.1.chunked = true) :
    (machine.exec scanAct q p xs y).acc.1.chunked = true := by
  have hperform (as : List Action) (p : Nat) (y : Scanning) (hy : y.1.chunked = true) :
      (perform scanAct as p y).1.chunked = true := by
    induction as generalizing y with
    | nil => exact hy
    | cons a as ih => exact ih _ (scanAct_chunked hy)
  induction xs generalizing q p y with
  | nil => exact h
  | cons b bs ih =>
    cases ha : machine q b with
    | none =>
      rw [exec_of_none ha]
      exact h
    | some arc =>
      cases hs : arc.stops with
      | true =>
        rw [exec_of_stops ha hs]
        exact hperform _ _ _ h
      | false =>
        rw [exec_of_goes ha hs]
        exact ih (hperform _ _ _ h)

theorem unchunked_of_append {xs ys : Bytes} (hxs : (scan xs).halt = .input)
    (h : (scan (xs ++ ys)).acc.1.chunked = false) : (scan xs).acc.1.chunked = false := by
  by_contra hne
  have hwhole : (scan (xs ++ ys)).acc.1.chunked = true := by
    rw [scan, scanFrom, exec_append_of_input hxs ys]
    exact exec_chunked ((Bool.not_eq_false _).mp hne)
  rw [h] at hwhole
  cases hwhole

/-! ## One round -/

/-- The parser behind the reads `pre`, which are all used up. -/
structure Paused (pre : List Bytes) (p : HttpResponseParser) (q : Nat) (m : ResponseMarks)
    (ts : List Token) : Prop where
  scan : scan pre.flatten = ⟨.input, q, pre.flatten.length, (m, ts)⟩
  resumes : Resumes pre.flatten.length q p.parser m
  error : p.error = .ok

theorem paused_new : Paused [] {} httpclientParserStart {} [] where
  scan := rfl
  resumes := resumes_init
  error := rfl

/--
**One round of the loop.** If every callback is accepted, the round does what the scan does; otherwise
no response is returned. The loop ends in the first final state only.
-/
theorem recvHead_round {env : Env} {reads pre ss : List Bytes} {s : Bytes} {p : HttpResponseParser}
    {q : Nat} {m : ResponseMarks} {ts : List Token} (hreads : pre ++ s :: ss = reads)
    (hs : s ≠ []) (hfits : s.length ≤ env.buffSize) (h : Paused pre p q m ts)
    {e : Exit Nat Scanning} (he : scan (pre.flatten ++ s) = e) (hchunked : e.acc.1.chunked = false)
    (fuel : Nat) :
    ∃ new, e.acc.2 = ts ++ new ∧
      ((∀ r ∈ new.map (Token.seen (Cuts.of reads)), accepts r = true) → e.halt ≠ .error →
        ∃ p' : HttpResponseParser, p'.parser.chunked = false ∧
          p'.response = fillAll (new.map (Token.seen (Cuts.of reads))) p.response ∧
          (e.halt = .stop → recvHead env (fuel + 1) p [] (s :: ss) =
            if e.state = httpclientParserFirstFinal then
              .message (p', s.drop (e.pos - pre.flatten.length)) ss
            else recvHead env fuel p' (s.drop (e.pos - pre.flatten.length)) ss) ∧
          (e.halt = .input → Paused (pre ++ [s]) p' e.state e.acc.1 e.acc.2 ∧
            recvHead env (fuel + 1) p [] (s :: ss) = recvHead env fuel p' [] ss)) ∧
      (e.halt = .error ∨ ¬ (∀ r ∈ new.map (Token.seen (Cuts.of reads)), accepts r = true) →
        ∀ x rest, recvHead env (fuel + 1) p [] (s :: ss) ≠ .message x rest) := by
  have hpos := exec_pos machine scanAct q pre.flatten.length s (m, [])
  have hlt : (scanFrom q pre.flatten.length s m).halt = .stop →
      pre.flatten.length < (scanFrom q pre.flatten.length s m).pos := lt_pos_of_stop
  have hscan : scan (pre.flatten ++ s) = _ := scanAct_appends.exec_append h.scan s
  rw [hscan] at he
  subst he
  have hcovers : (Cuts.of reads).Covers pre.flatten.length s := hreads ▸ Cuts.covers_of pre s ss
  obtain ⟨parser', hexec, hcs, hunchunked, hresumes⟩ :=
    execute_follows hcovers hs h.resumes rfl hchunked
  have hends := scanFrom_ends pre.flatten.length s h.resumes.running h.resumes.bodyStart_marks
  unfold scanFrom at *
  generalize machine.exec scanAct q pre.flatten.length s (m, []) = e at *
  have hround : recvHead env (fuel + 1) p [] (s :: ss) =
      match onReports (e.acc.2.map (Token.seen (Cuts.of reads))) (p.response, .ok) with
      | none => .fault
      | some (response, error) =>
        if (HttpResponseParser.mk parser' response error).hasError then .null
        else if s.length - (e.pos - pre.flatten.length) = env.buffSize then .null
        else if (HttpResponseParser.mk parser' response error).isFinished ≠ 0 then
          .message (⟨parser', response, error⟩, s.drop (e.pos - pre.flatten.length)) ss
        else
          recvHead env fuel ⟨parser', response, error⟩ (s.drop (e.pos - pre.flatten.length)) ss := by
    have hne : s.isEmpty = false := List.isEmpty_eq_false_iff.mpr hs
    have hexecute : p.execute s false =
        (onReports (e.acc.2.map (Token.seen (Cuts.of reads))) (p.response, .ok)).map fun f =>
          (⟨parser', f.1, f.2⟩, s.drop (e.pos - pre.flatten.length), e.pos - pre.flatten.length) := by
      simp only [HttpResponseParser.execute, Bool.false_eq_true, if_false, hexec, h.error,
        Option.bind_eq_bind, Option.bind_some]
      cases onReports (e.acc.2.map (Token.seen (Cuts.of reads))) (p.response, .ok) <;> rfl
    rw [recvHead, read_fits hfits]
    simp only [hne, Bool.false_eq_true, if_false, List.nil_append, hexecute]
    cases onReports (e.acc.2.map (Token.seen (Cuts.of reads))) (p.response, .ok) <;> rfl
  dsimp only at hends ⊢
  refine ⟨e.acc.2, rfl, fun hacc herr => ?_, fun hfail x rest hmessage => ?_⟩
  · have hreports : onReports (e.acc.2.map (Token.seen (Cuts.of reads))) (p.response, .ok) =
        some (fillAll (e.acc.2.map (Token.seen (Cuts.of reads))) p.response, .ok) :=
      callbacks.all_of_accepts hacc
    rw [hreports] at hround
    dsimp only at hround
    have hcs' : parser'.cs = e.state := by rw [hcs, if_neg herr]
    have hne0 : e.state ≠ httpclientParserError := by
      cases hhalt : e.halt with
      | error => exact absurd hhalt herr
      | input => exact Nat.ne_of_gt (hends.1 hhalt).1.1
      | stop =>
        exact Nat.ne_of_gt (Nat.lt_of_lt_of_le (by decide) (hends.2 hhalt))
    have hnoError : (HttpResponseParser.mk parser'
        (fillAll (e.acc.2.map (Token.seen (Cuts.of reads))) p.response) .ok).hasError = false := by
      simp [HttpResponseParser.hasError, HttpClientParser.hasError, hcs', hne0]
    have hfinish : (HttpResponseParser.mk parser'
        (fillAll (e.acc.2.map (Token.seen (Cuts.of reads))) p.response) .ok).isFinished =
        if e.state = httpclientParserFirstFinal then 1 else 0 := by
      simp [HttpResponseParser.isFinished, httpclientParserFinish, HttpClientParser.hasError,
        HttpClientParser.isFinished, hcs', hne0]
    rw [hnoError, if_neg Bool.false_ne_true, hfinish] at hround
    have hbuff := env.buffSize_pos
    have hpositive := List.length_pos_iff.mpr hs
    refine ⟨⟨parser', fillAll (e.acc.2.map (Token.seen (Cuts.of reads))) p.response, .ok⟩, hunchunked, rfl,
      fun hstop => ?_, fun hinput => ?_⟩
    · have hread := hlt hstop
      rw [hround, if_neg (by omega)]
      split
      · rfl
      · rfl
    · have hend := hpos.2.2 hinput
      have hrunning := (hends.1 hinput).1
      have hnotFinal : e.state ≠ httpclientParserFirstFinal := Nat.ne_of_lt hrunning.2
      rw [if_neg hnotFinal, if_neg (by omega), if_neg (by decide),
        List.drop_eq_nil_of_le (by omega)] at hround
      have hflat : (pre ++ [s]).flatten = pre.flatten ++ s := by simp
      refine ⟨⟨?_, ?_, rfl⟩, hround⟩
      · rw [hflat, hscan, hinput, hend, List.length_append]
      · rw [hflat, List.length_append]
        exact hresumes hinput
  · -- an error stays, and ends the loop
    rw [hmessage] at hround
    cases hf : onReports (e.acc.2.map (Token.seen (Cuts.of reads))) (p.response, .ok) with
    | none =>
      rw [hf] at hround
      cases hround
    | some f =>
      obtain ⟨response, error⟩ := f
      rw [hf] at hround
      have hbad : (HttpResponseParser.mk parser' response error).hasError = true := by
        rw [HttpResponseParser.hasError, Bool.or_eq_true, bne_iff_ne]
        rcases hfail with herr | hacc
        · rw [if_pos herr] at hcs
          exact .inr (by rw [HttpClientParser.hasError, hcs, beq_iff_eq])
        · exact .inl fun hok => hacc (callbacks.accepts_of_all hf hok)
      dsimp only at hround
      rw [if_pos hbad] at hround
      cases hround

/-! ## All rounds -/

/-- The parser behind reads whose callbacks were all accepted. -/
structure Accepted (cuts : Cuts) (p : HttpResponseParser) (ts : List Token) : Prop where
  accepts : ∀ r ∈ ts.map (Token.seen cuts), accepts r = true
  response : p.response = fillAll (ts.map (Token.seen cuts)) {}

theorem mem_seen_append {cuts : Cuts} {ts new : List Token} {r : Report Element} :
    r ∈ (ts ++ new).map (Token.seen cuts) ↔
      r ∈ ts.map (Token.seen cuts) ∨ r ∈ new.map (Token.seen cuts) := by
  rw [List.map_append, List.mem_append]

theorem Accepted.append {cuts : Cuts} {p p' : HttpResponseParser} {ts new : List Token}
    (h : Accepted cuts p ts) (hnew : ∀ r ∈ new.map (Token.seen cuts), Client.accepts r = true)
    (hp' : p'.response = fillAll (new.map (Token.seen cuts)) p.response) :
    Accepted cuts p' (ts ++ new) := by
  refine ⟨fun r hr => (mem_seen_append.mp hr).elim (h.accepts r) (hnew r), ?_⟩
  rw [hp', h.response, List.map_append, fillAll, fillAll, fillAll, List.foldl_append]

/--
**The loop.** The head is complete in the read `s`: if every callback is accepted the loop ends there, with
the response of the callbacks and with what is left of `s`; otherwise it returns no response.
-/
theorem recvHead_reads {env : Env} {reads pre xs rest : List Bytes} {s : Bytes}
    {p : HttpResponseParser} {q : Nat} {m : ResponseMarks} {ts : List Token}
    (hreads : pre ++ (xs ++ s :: rest) = reads)
    (hfits : ∀ s' ∈ xs ++ [s], s' ≠ [] ∧ s'.length ≤ env.buffSize)
    (h : Paused pre p q m ts) (hacc : Accepted (Cuts.of reads) p ts)
    (hxs : (scan (pre ++ xs).flatten).halt = .input) {e : Exit Nat Scanning}
    (he : scan ((pre ++ xs).flatten ++ s) = e) (hstop : e.halt = .stop)
    (hfinal : e.state = httpclientParserFirstFinal) (hchunked : e.acc.1.chunked = false)
    {fuel : Nat} (hfuel : xs.length < fuel) :
    ((∀ r ∈ e.acc.2.map (Token.seen (Cuts.of reads)), accepts r = true) →
      ∃ p', p'.parser.chunked = false ∧ Accepted (Cuts.of reads) p' e.acc.2 ∧
        recvHead env fuel p [] (xs ++ s :: rest) =
          .message (p', s.drop (e.pos - (pre ++ xs).flatten.length)) rest) ∧
    (¬ (∀ r ∈ e.acc.2.map (Token.seen (Cuts.of reads)), accepts r = true) →
      ∀ x rest', recvHead env fuel p [] (xs ++ s :: rest) ≠ .message x rest') := by
  induction xs generalizing pre p q m ts fuel with
  | nil =>
    obtain ⟨fuel, rfl⟩ : ∃ n, fuel = n + 1 := ⟨fuel - 1, by rw [List.length_nil] at hfuel; omega⟩
    rw [List.append_nil] at he ⊢
    obtain ⟨hne, hfit⟩ := hfits s (by simp)
    obtain ⟨new, hnew, hok, hbad⟩ := recvHead_round hreads hne hfit h he hchunked fuel
    rw [hnew]
    refine ⟨fun hall => ?_, fun hnot => hbad (.inr fun hall => hnot fun r hr => ?_)⟩
    · have haccNew : ∀ r ∈ new.map (Token.seen (Cuts.of reads)), accepts r = true :=
        fun r hr => hall r (mem_seen_append.mpr (.inr hr))
      obtain ⟨p', hunchunked, hp', hmessage, -⟩ := hok haccNew (by rw [hstop]; nofun)
      refine ⟨p', hunchunked, hacc.append haccNew hp', (hmessage hstop).trans ?_⟩
      rw [if_pos hfinal]
    · exact (mem_seen_append.mp hr).elim (hacc.accepts r) (hall r)
  | cons s₁ xs ih =>
    rw [List.length_cons] at hfuel
    obtain ⟨fuel, rfl⟩ : ∃ n, fuel = n + 1 := ⟨fuel - 1, by omega⟩
    have happend : pre ++ s₁ :: xs = pre ++ [s₁] ++ xs := by simp
    have hsnoc : (pre ++ [s₁]).flatten = pre.flatten ++ s₁ := by simp
    rw [happend] at he hxs ⊢
    rw [List.cons_append] at hreads ⊢
    obtain ⟨hne, hfit⟩ := hfits s₁ (by simp)
    -- the first read is used up, as the scan goes on behind it
    have hinput : (scan (pre.flatten ++ s₁)).halt = .input := by
      by_contra hhalt
      rw [List.flatten_append, hsnoc, scan, scanFrom, exec_append_of_halt hhalt] at hxs
      exact hhalt hxs
    have hwhole : pre.flatten ++ s₁ ++ (xs.flatten ++ s) = (pre ++ [s₁] ++ xs).flatten ++ s := by
      simp
    have hplain : (scan (pre.flatten ++ s₁)).acc.1.chunked = false := by
      rw [← he, ← hwhole] at hchunked
      exact unchunked_of_append hinput hchunked
    obtain ⟨new, hnew, hok, hbad⟩ := recvHead_round hreads hne hfit h rfl hplain fuel
    by_cases haccNew : ∀ r ∈ new.map (Token.seen (Cuts.of reads)), accepts r = true
    · obtain ⟨p', -, hp', -, hgoes⟩ := hok haccNew (by rw [hinput]; nofun)
      obtain ⟨hpaused, hrecv⟩ := hgoes hinput
      rw [hrecv]
      rw [hnew] at hpaused
      exact ih (by rw [← hreads]; simp) (fun s' hs' => hfits s' (List.mem_cons_of_mem _ hs'))
        hpaused (hacc.append haccNew hp') hxs he (Nat.lt_of_succ_lt_succ hfuel)
    · refine ⟨fun hall => absurd (fun r hr => ?_) haccNew, fun _ => hbad (.inr haccNew)⟩
      -- the tokens of the first read are tokens of the head
      obtain ⟨more, hmore⟩ : ∃ more, (scan (pre.flatten ++ s₁ ++ (xs.flatten ++ s))).acc.2 =
          (scan (pre.flatten ++ s₁)).acc.2 ++ more := scanAct_appends.exec_prefix hinput _
      rw [hwhole, he, hnew, List.append_assoc] at hmore
      exact hall r (by rw [hmore]; exact mem_seen_append.mpr (.inr (mem_seen_append.mpr (.inl hr))))

/-- **What the loop returns for these reads**, when a scan of their text ends in the first final state. -/
theorem recvHead_iff {env : Env} {reads : List Bytes}
    (hfits : ∀ s ∈ reads, s ≠ [] ∧ s.length ≤ env.buffSize) {e : Exit Nat Scanning}
    (he : scan reads.flatten = e) (hstop : e.halt = .stop)
    (hfinal : e.state = httpclientParserFirstFinal) (hchunked : e.acc.1.chunked = false)
    {fuel : Nat} (hfuel : reads.length < fuel) :
    ((∀ r ∈ e.acc.2.map (Token.seen (Cuts.of reads)), accepts r = true) →
      ∃ p held rest, recvHead env fuel {} [] reads = .message (p, held) rest ∧
        p.parser.chunked = false ∧
        p.response = fillAll (e.acc.2.map (Token.seen (Cuts.of reads))) {} ∧
        held ++ rest.flatten = reads.flatten.drop e.pos ∧ Solid rest ∧
        rest.length < reads.length) ∧
    (¬ (∀ r ∈ e.acc.2.map (Token.seen (Cuts.of reads)), accepts r = true) →
      ∀ x rest, recvHead env fuel {} [] reads ≠ .message x rest) := by
  obtain ⟨xs, s, rest, rfl, hxs, hs⟩ := exists_stop (M := machine) (g := scanAct)
    (q := httpclientParserStart) (p := 0) (s := ({}, [])) [] reads rfl
    (by rw [List.nil_append]; exact (congrArg Exit.halt he).trans hstop)
  rw [List.nil_append] at hxs hs
  replace hs : scan (xs.flatten ++ s) = e := by
    rw [← he]
    exact hs
  rw [List.length_append, List.length_cons] at hfuel
  obtain ⟨hok, hbad⟩ := recvHead_reads
    (show [] ++ (xs ++ s :: rest) = xs ++ s :: rest from rfl)
    (fun s' hs' => hfits s' (by simp at hs' ⊢; tauto)) paused_new ⟨by simp, rfl⟩ hxs hs hstop hfinal
    hchunked (show xs.length < fuel by omega)
  refine ⟨fun hacc => ?_, hbad⟩
  obtain ⟨p, hunchunked, hp, hmessage⟩ := hok hacc
  refine ⟨p, _, rest, hmessage, hunchunked, hp.response, ?_, fun s' hs' => (hfits s' (by simp [hs'])).1,
    by rw [List.length_append, List.length_cons]; omega⟩
  have hpos := exec_pos_append hxs s
  rw [Nat.zero_add, Nat.zero_add] at hpos
  replace hpos : xs.flatten.length ≤ e.pos ∧ e.pos ≤ (xs.flatten ++ s).length := by
    rw [← hs]
    exact hpos
  rw [List.nil_append, List.flatten_append, List.flatten_cons, ← List.append_assoc,
    List.drop_append_of_le_length hpos.2, List.drop_append, List.drop_of_length_le hpos.1,
    List.nil_append]

theorem stop_of_single {env : Env} {text : Bytes} (hne : text ≠ [])
    (hfits : text.length ≤ env.buffSize) (hchunked : (scan text).acc.1.chunked = false) {fuel : Nat}
    {x : HttpResponseParser × Bytes} {rest : Stream}
    (h : recvHead env (fuel + 1) {} [] [text] = .message x rest) :
    (scan text).halt = .stop ∧ (scan text).state = httpclientParserFirstFinal := by
  have hnothing (p : HttpResponseParser) (held : Bytes) :
      recvHead env fuel p held [] ≠ .message x rest := by
    cases fuel <;> exact nofun
  obtain ⟨new, hnew, hok, hbad⟩ := recvHead_round
    (show [] ++ [text] = [text] from rfl) hne hfits paused_new rfl hchunked fuel
  simp only [List.flatten_nil, List.nil_append] at hok hbad
  by_cases hacc : ∀ r ∈ new.map (Token.seen (Cuts.of [text])), accepts r = true
  · cases hhalt : (scan text).halt with
    | error => exact absurd h (hbad (.inl hhalt) x rest)
    | input =>
      -- nothing comes after the only read
      obtain ⟨p', -, -, -, hgoes⟩ := hok hacc (by rw [hhalt]; nofun)
      rw [(hgoes hhalt).2] at h
      exact absurd h (hnothing _ _)
    | stop =>
      obtain ⟨p', -, -, hmessage, -⟩ := hok hacc (by rw [hhalt]; nofun)
      rw [hmessage hhalt] at h
      refine ⟨rfl, ?_⟩
      by_contra hne
      rw [if_neg hne] at h
      exact hnothing _ _ h
  · exact absurd h (hbad (.inr hacc) x rest)

/-! ## The body -/

/-- The length of the body, as `recvResponse` reads it. -/
def bodyLen (env : Env) (response : HttpResponse) : Int :=
  toInt64 (response.headers.getAsSize env.lexicalCast (ascii "content-length"))

/-- The response that is returned for the head `response` when the bytes `text` follow. -/
def withBody (env : Env) (response : HttpResponse) (text : Bytes) : HttpResponse :=
  if bodyLen env response > 0 then setBody response (text.take (bodyLen env response).toNat)
  else response

/-- `recvResponse` behind the head of a response that is not chunked. -/
theorem recvResponse_eq {env : Env} {stream rest : Stream} {p : HttpResponseParser} {held : Bytes}
    (hhead : recvHead env (stream.flatten.length + 1) {} [] stream = .message (p, held) rest)
    (hchunked : p.parser.chunked = false) :
    recvResponse env stream =
      if bodyLen env p.response > 0 then
        (recvBody (bodyLen env p.response) held rest).elim .null fun x =>
          .message (setBody p.response x.1) x.2
      else .message p.response rest := by
  have hlen : toInt64 (p.getContentLength env) = bodyLen env p.response := rfl
  unfold recvResponse
  rw [hhead]
  show (if p.parser.chunked then _ else
    if toInt64 (p.getContentLength env) > 0 then _ else _) = _
  rw [hchunked, if_neg Bool.false_ne_true, hlen]
  cases recvBody (bodyLen env p.response) held rest <;> rfl

theorem recvResponse_of_head {env : Env} {stream rest : Stream} {p : HttpResponseParser}
    {held : Bytes}
    (hhead : recvHead env (stream.flatten.length + 1) {} [] stream = .message (p, held) rest)
    (hchunked : p.parser.chunked = false) (hrest : Solid rest)
    (hn : bodyLen env p.response ≤ (held ++ rest.flatten).length)
    (hint : bodyLen env p.response > held.length →
      0 < toInt32 (bodyLen env p.response - held.length)) :
    recvResponse env stream = .message (withBody env p.response (held ++ rest.flatten))
      (skip ((bodyLen env p.response).toNat - held.length) rest) := by
  rw [recvResponse_eq hhead hchunked]
  by_cases hpos : bodyLen env p.response > 0
  · obtain ⟨n, hn'⟩ : ∃ n : Nat, bodyLen env p.response = n :=
      ⟨(bodyLen env p.response).toNat, by omega⟩
    rw [withBody, if_pos hpos, if_pos hpos]
    rw [hn'] at hn hint ⊢
    have hbody : recvBody n held rest =
        some ((held ++ rest.flatten).take n, skip (n - held.length) rest) :=
      recvBody_solid hrest (by omega)
        (fun hlt => by rw [Nat.cast_sub (by omega)]; exact hint (by omega))
    rw [hbody, Option.elim_some, Int.toNat_natCast]
  · have h0 : (bodyLen env p.response).toNat - held.length = 0 := by omega
    rw [if_neg hpos, withBody, if_neg hpos, h0, skip_zero hrest]

/-- A response that is returned for the head `q`. -/
def Completes (q response : HttpResponse) : Prop := ∃ body, response = { q with body := body }

theorem completes_setBody (q : HttpResponse) (body : Bytes) : Completes q (setBody q body) := by
  unfold setBody
  split
  · exact ⟨q.body, rfl⟩
  · exact ⟨body, rfl⟩

/-- The body leaves the other members as they are. -/
theorem eq_of_completes {q q' response : HttpResponse} (hbody : q.body = q'.body)
    (h : Completes q response) (h' : Completes q' response) : q = q' := by
  obtain ⟨body, rfl⟩ := h
  obtain ⟨body', heq⟩ := h'
  obtain ⟨⟩ := q
  obtain ⟨⟩ := q'
  simp only [HttpResponse.mk.injEq] at heq hbody ⊢
  obtain ⟨hstatus, hversion, hclose, hwebSocket, -, hreason, hheaders, hcookies⟩ := heq
  exact ⟨hstatus, hversion, hclose, hwebSocket, hbody, hreason, hheaders, hcookies⟩

theorem bodyLen_of_completes {env : Env} {q response : HttpResponse} (h : Completes q response) :
    bodyLen env response = bodyLen env q := by
  obtain ⟨body, rfl⟩ := h
  rfl

/-- A response that is returned completes its head, and has a body if it is to have one. -/
theorem completes_of_recvResponse {env : Env} {stream rest rest' : Stream} {p : HttpResponseParser}
    {held : Bytes} {response : HttpResponse}
    (hhead : recvHead env (stream.flatten.length + 1) {} [] stream = .message (p, held) rest)
    (hchunked : p.parser.chunked = false) (h : recvResponse env stream = .message response rest') :
    Completes p.response response := by
  rw [recvResponse_eq hhead hchunked] at h
  split at h
  · cases hbody : recvBody (bodyLen env p.response) held rest with
    | none =>
      rw [hbody] at h
      cases h
    | some x =>
      rw [hbody] at h
      cases h
      exact completes_setBody _ _
  · cases h
    exact ⟨_, rfl⟩

/-- A response that is returned has a head. -/
theorem head_of_recvResponse {env : Env} {stream rest : Stream} {response : HttpResponse}
    (h : recvResponse env stream = .message response rest) :
    ∃ p held rest', recvHead env (stream.flatten.length + 1) {} [] stream =
      .message (p, held) rest' := by
  unfold recvResponse at h
  cases hhead : recvHead env (stream.flatten.length + 1) {} [] stream with
  | null =>
    rw [hhead] at h
    cases h
  | fault =>
    rw [hhead] at h
    cases h
  | message x rest' => exact ⟨x.1, x.2, rest', rfl⟩

/-! ## Independence of the reads -/

/-- The text is one response that is not chunked: its head and its body, and it is accepted in one read. -/
structure Complete (env : Env) (text : Bytes) (response : HttpResponse) : Prop where
  accepted : recvResponse env [text] = .message response []
  plain : (scan text).acc.1.chunked = false
  ends : text.length = (scan text).pos + (bodyLen env response).toNat

/--
**The reads make no difference**, exactly when their cuts are harmless: what `recvResponse` returns for a
response that comes in one read it also returns for these reads, and leaves nothing of them.
-/
theorem recvResponse_reads_iff {env : Env} {reads : List Bytes} {response : HttpResponse}
    (hsolid : Solid reads) (hsize : reads.flatten.length ≤ env.buffSize)
    (h : Complete env reads.flatten response) :
    recvResponse env reads = .message response [] ↔ Harmless reads := by
  have hint := env.buffSize_le
  simp only [intMax] at hint
  obtain ⟨p, held, rest₁, hhead⟩ := head_of_recvResponse h.accepted
  have hne : reads.flatten ≠ [] := by
    intro hnil
    rw [hnil] at hhead
    simp [recvHead, Net.read] at hhead
  have hfits : ∀ s ∈ reads, s ≠ [] ∧ s.length ≤ env.buffSize := fun s hs =>
    ⟨hsolid s hs, Nat.le_trans (List.Sublist.length_le (List.sublist_flatten_of_mem hs)) hsize⟩
  obtain ⟨hstop, hfinal⟩ := stop_of_single hne hsize h.plain hhead
  have htokens : Tokens reads.flatten (tokens reads.flatten) := by
    have h := (scan_tokens rfl hstop).append (reads.flatten.drop (scan reads.flatten).pos)
    rwa [List.take_append_drop] at h
  -- the single read
  obtain ⟨hok₁, hbad₁⟩ := recvHead_iff
    (show ∀ s ∈ [reads.flatten], s ≠ [] ∧ s.length ≤ env.buffSize from
      fun s hs => by rw [List.mem_singleton.mp hs]; exact ⟨hne, hsize⟩) (by simp) hstop hfinal h.plain
    (show [reads.flatten].length < [reads.flatten].flatten.length + 1 by
      simpa using List.length_pos_iff.mpr hne)
  have hwhole : ∀ r ∈ (tokens reads.flatten).map (Token.seen (Cuts.of [reads.flatten])),
      accepts r = true := by
    by_contra hacc
    exact hbad₁ hacc _ _ hhead
  obtain ⟨p₁, held₁, rest₁', hhead₁, hplain₁, hp₁, hheld₁, hsolid₁, hrest₁⟩ := hok₁ hwhole
  rw [hhead₁] at hhead
  cases hhead
  have hcompletes := completes_of_recvResponse hhead₁ hplain₁ h.accepted
  have hlen : bodyLen env response = bodyLen env p.response := bodyLen_of_completes hcompletes
  -- these reads
  obtain ⟨hok, hbad⟩ := recvHead_iff hfits rfl hstop hfinal h.plain
    (Nat.lt_succ_of_le (length_le_flatten hsolid))
  rw [← sameResponse_iff htokens hwhole]
  constructor
  · intro hreads
    obtain ⟨p', held', rest', hhead'⟩ := head_of_recvResponse hreads
    have hacc : ∀ r ∈ (tokens reads.flatten).map (Token.seen (Cuts.of reads)), accepts r = true := by
      by_contra hacc
      exact hbad hacc _ _ hhead'
    obtain ⟨p₂, held₂, rest₂, hhead₂, hplain₂, hp₂, -⟩ := hok hacc
    have hcompletes₂ := completes_of_recvResponse hhead₂ hplain₂ hreads
    refine ⟨hacc, ?_⟩
    have hbody (rs : List (Report Element)) : (fillAll rs {}).body = [] :=
      foldl_keeps (fun r a => show (fill r a).body = a.body from rfl) rs {}
    rw [hp₂] at hcompletes₂
    rw [hp₁] at hcompletes
    exact eq_of_completes ((hbody _).trans (hbody _).symm) hcompletes₂ hcompletes
  · rintro ⟨hacc, hfill⟩
    obtain ⟨p₂, held₂, rest₂, hhead₂, hplain₂, hp₂, hheld₂, hsolid₂, -⟩ := hok hacc
    have hsame : p₂.response = p.response := by
      rw [hp₂, hp₁]
      exact hfill
    obtain rfl : rest₁ = [] := by
      cases rest₁ with
      | nil => rfl
      | cons => simp at hrest₁
    have hheld : held = reads.flatten.drop (scan reads.flatten).pos := by simpa using hheld₁
    -- what comes behind the head is the body
    have hbehind : held.length = (bodyLen env p.response).toNat := by
      rw [hheld, List.length_drop, ← hlen]
      have := h.ends
      omega
    have hlong : held.length ≤ reads.flatten.length := by
      rw [hheld, List.length_drop]
      omega
    have hsingle := recvResponse_of_head hhead₁ hplain₁ (show Solid [] from List.forall_mem_nil _)
      (by simp only [List.flatten_nil, List.append_nil]; omega) (fun hgt => by omega)
    rw [h.accepted, Received.message.injEq] at hsingle
    have hrecv := recvResponse_of_head hhead₂ hplain₂ hsolid₂
      (by rw [hheld₂, ← hheld, hsame]; omega)
      (fun hgt => by
        rw [hsame] at hgt ⊢
        unfold toInt32
        rw [Int.bmod_eq_of_le (by omega) (by omega)]
        omega)
    have hnothing : skip ((bodyLen env p₂.response).toNat - held₂.length) rest₂ = [] := by
      have hskip := flatten_skip ((bodyLen env p₂.response).toNat - held₂.length) rest₂
      have hlength : held₂.length + rest₂.flatten.length = held.length := by
        rw [← List.length_append, hheld₂, ← hheld]
      rw [List.drop_eq_nil_of_le (by rw [hsame]; omega)] at hskip
      rw [List.eq_nil_iff_forall_not_mem]
      intro s hs
      exact skip_solid _ hsolid₂ s hs (List.flatten_eq_nil_iff.mp hskip s hs)
    rw [hrecv, hnothing, hsame, hheld₂, ← hheld, hsingle.1, List.flatten_nil, List.append_nil]

/-! ## Cuts that do nothing, and cuts that do harm -/

/-- Whether the text is one response that is not chunked. -/
def isComplete (env : Env) (text : Bytes) : Bool :=
  match recvResponse env [text] with
  | .message response [] => !(scan text).acc.1.chunked &&
    text.length == (scan text).pos + (bodyLen env response).toNat
  | _ => false

theorem exists_complete {env : Env} {text : Bytes} (h : isComplete env text = true) :
    ∃ response, Complete env text response := by
  unfold isComplete at h
  split at h
  · next response hrecv =>
    rw [Bool.and_eq_true, Bool.not_eq_true', beq_iff_eq] at h
    exact ⟨response, hrecv, h.1, h.2⟩
  · cases h

/-- A response that is cut behind its status line, and in its body. -/
def threeReads : List Bytes :=
  [ascii "HTTP/1.1 200 OK\r\n", ascii "Content-Length: 2\r\n\r\nh", ascii "i"]

theorem recvResponse_threeReads : ∃ response, Complete plainEnv threeReads.flatten response ∧
    recvResponse plainEnv threeReads = .message response [] := by
  obtain ⟨response, hcomplete⟩ := exists_complete
    (show isComplete plainEnv threeReads.flatten = true by decide +kernel)
  have htokens : tokens threeReads.flatten =
      [.version 0 8, .status 9 12, .reason 13 15, .field 17 17 31 33 34, .done 37] := by
    decide +kernel
  have hlines : headerLines (Cuts.of threeReads) threeReads.flatten (tokens threeReads.flatten) =
      headerLines (Cuts.of [threeReads.flatten]) threeReads.flatten (tokens threeReads.flatten) := by
    decide +kernel
  have hharmless : Harmless threeReads := by
    refine ⟨?_, ?_, ?_, ?_, fun name => congrArg (headerOf name) hlines⟩
    all_goals rw [htokens]
    · intro i fpc h
      simp at h
      obtain ⟨rfl, rfl⟩ := h
      decide +kernel
    · intro i fpc h
      simp at h
      obtain ⟨rfl, rfl⟩ := h
      decide +kernel
    · intro i fpc h
      simp at h
      obtain ⟨rfl, rfl⟩ := h
      decide +kernel
    · intro t ht
      simp only [List.mem_cons, List.not_mem_nil, or_false] at ht
      rcases ht with rfl | rfl | rfl | rfl | rfl
      · trivial
      · trivial
      · trivial
      · exact .inr (by decide +kernel)
      · trivial
  exact ⟨response, hcomplete,
    (recvResponse_reads_iff (by decide) (by decide) hcomplete).mpr hharmless⟩

/-- The reads of a response that is accepted in one read make no difference. -/
def ReadsAlike : Prop :=
  ∀ (env : Env) (reads : List Bytes) (response : HttpResponse), Solid reads →
    reads.flatten.length ≤ env.buffSize → Complete env reads.flatten response →
    recvResponse env reads = .message response []

/-- A response that is cut in its reason. -/
def inReason : List Bytes := [ascii "HTTP/1.1 200 O", ascii "K\r\n\r\n"]

def reasonReceived : Received HttpResponse → Option Bytes
  | .message response _ => some response.reason
  | _ => none

/-- The reason that is received is `K`. -/
theorem not_responseReadsAlike : ¬ ReadsAlike := by
  intro hclaim
  obtain ⟨response, hcomplete⟩ := exists_complete
    (show isComplete plainEnv inReason.flatten = true by decide +kernel)
  have hreads := hclaim plainEnv inReason response (by decide) (by decide) hcomplete
  have hcut : reasonReceived (recvResponse plainEnv inReason) = some (ascii "K") := by
    decide +kernel
  have hwhole : reasonReceived (recvResponse plainEnv [inReason.flatten]) = some (ascii "OK") := by
    decide +kernel
  rw [hreads] at hcut
  rw [hcomplete.accepted, hcut] at hwhole
  revert hwhole
  decide

end Nemo.Http.Client
