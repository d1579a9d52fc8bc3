import Nemo.Http.Arrival

/-!
# The requests of a connection

`recvRequest` holds what it has read in a buffer of its own, and what is in the buffer behind the request
is gone when it returns. So successive calls return the requests that were sent if no read that ends
a head goes on into the next request, and if the cuts in the heads are harmless.
-/

namespace Nemo.Http

open Infra Automaton Net

/-! ## Requests -/

/-- The end of the head of a request. -/
def headEnd (uriRelaxed : Bool) (text : Bytes) : Nat := (scan uriRelaxed text).pos

/-- The request without its body, as it is seen whole. -/
def headOf (uriRelaxed : Bool) (text : Bytes) : HttpRequest :=
  fillAll ((tokens uriRelaxed text).map (Token.seen (Cuts.of [text]))) {}

/-- The text is one request, with the body that its head announces. -/
structure IsRequest (env : Env) (text : Bytes) (request : HttpRequest) : Prop where
  size : text.length < 2 ^ 63
  stop : (scan env.uriRelaxed text).halt = .stop
  accepted : ∀ r ∈ (tokens env.uriRelaxed text).map (Token.seen (Cuts.of [text])),
    accepts r = true
  length : text.length
    = headEnd env.uriRelaxed text + (bodyLen env (headOf env.uriRelaxed text)).toNat
  request : request
    = withBody env (headOf env.uriRelaxed text) (text.drop (headEnd env.uriRelaxed text))

/--
The reads `xs` and `s` suit the request `text`: its head ends in `s`, they do not go beyond
it, and no cut does harm. What is not yet read of it is its rest.
-/
structure Suits (env : Env) (text : Bytes) (xs : List Bytes) (s : Bytes) : Prop where
  fits : ∀ s' ∈ xs ++ [s], s'.length ≤ env.buffSize
  before : xs.flatten.length < headEnd env.uriRelaxed text
  reached : headEnd env.uriRelaxed text ≤ (xs ++ [s]).flatten.length
  own : (xs ++ [s]).flatten.length ≤ text.length
  harmless : Harmless env.uriRelaxed (xs ++ [s, text.drop (xs ++ [s]).flatten.length])
  counted : (xs ++ [s]).flatten.length < text.length →
    0 < toInt32 (text.length - (xs ++ [s]).flatten.length : Nat)

/-! ## One call -/

/-- Cuts that are the same up to `n`. -/
def Cuts.AgreeTo (n : Nat) (cuts cuts' : Cuts) : Prop :=
  ∀ p < n, cuts.base p = cuts'.base p ∧ cuts.buffer p = cuts'.buffer p

theorem seen_congr {n : Nat} {cuts cuts' : Cuts} (h : cuts.AgreeTo n cuts')
    {t : Token Element} (ht : t.Within n) : t.seen cuts = t.seen cuts' := by
  cases t with
  | element e i p =>
    obtain ⟨-, -, -, hp⟩ := ht
    simp only [Token.seen, (h p hp).1, (h p hp).2]
  | kept e i p =>
    obtain ⟨-, hi, hp⟩ := ht
    simp only [Token.seen, (h p hp).1, (h p hp).2, (h i (by omega)).1]
  | field i colon value p =>
    obtain ⟨-, -, hp⟩ := ht
    simp only [Token.seen, (h p hp).1, (h p hp).2]
  | done e p =>
    obtain ⟨-, hp⟩ := ht
    simp only [Token.seen, (h p hp).1, (h p hp).2]

/-- What comes later does not change the reads that are there. -/
theorem Cuts.agreeTo_of (xs ys zs : List Bytes) :
    (Cuts.of (xs ++ ys)).AgreeTo xs.flatten.length (Cuts.of (xs ++ zs)) := by
  intro p hp
  obtain ⟨us, s, vs, rfl, hle, hlt⟩ := exists_read hp
  have hcovers : ∀ ws, (Cuts.of (us ++ s :: vs ++ ws)).Covers us.flatten.length s := by
    intro ws
    rw [List.append_assoc, List.cons_append]
    exact Cuts.covers_of us s (vs ++ ws)
  obtain ⟨hbase, hbuffer⟩ := hcovers ys (p - us.flatten.length) (by omega)
  obtain ⟨hbase', hbuffer'⟩ := hcovers zs (p - us.flatten.length) (by omega)
  rw [Nat.sub_add_cancel hle] at hbase hbuffer hbase' hbuffer'
  rw [hbase, hbuffer, hbase', hbuffer']
  exact ⟨rfl, rfl⟩

/-- A scan does not look at what follows the symbol at which it stops. -/
theorem scan_before {u : Bool} {xs ys : Bytes} (h : (scan u (xs ++ ys)).halt = .stop) :
    (xs.length < (scan u (xs ++ ys)).pos → (scan u xs).halt = .input) ∧
      ((scan u (xs ++ ys)).pos ≤ xs.length → scan u xs = scan u (xs ++ ys)) := by
  by_cases hhalt : (scan u xs).halt = .input
  · refine ⟨fun _ => hhalt, fun hle => ?_⟩
    -- the scan goes on behind `xs`
    have hpos := (exec_pos (machine u) scanAct httpParserStart 0 xs ({}, [])).2.2 hhalt
    have happend := exec_append_of_input hhalt ys
    unfold scan scanFrom at *
    rw [happend] at h hle
    have := lt_pos_of_stop h
    omega
  · have happend : scan u (xs ++ ys) = scan u xs := exec_append_of_halt hhalt ys
    have hpos := (exec_pos (machine u) scanAct httpParserStart 0 xs ({}, [])).2.1
    rw [happend]
    refine ⟨fun hlt => ?_, fun _ => rfl⟩
    unfold scan scanFrom at hlt
    omega

/-- What is to be read of a body, when `held` bytes of it have been read with the head. -/
theorem rest_of_body {len : Int} {size pos n held : Nat} (hsize : size = pos + len.toNat)
    (hheld : held = n - pos) (hpos : pos ≤ n) (hn : n ≤ size) :
    len.toNat - held = size - n ∧
      (len > held → n < size ∧ len - held = (size - n : Nat)) := by
  omega

/-- **One call** returns the request, if its reads suit it, and leaves what follows it. -/
theorem recvRequest_of_suits {env : Env} {text more : Bytes} {request : HttpRequest}
    {xs : List Bytes} {s : Bytes} {rest : Stream} (hrequest : IsRequest env text request)
    (hsuits : Suits env text xs s) (hsolid : Solid (xs ++ s :: rest))
    (hflat : (xs ++ s :: rest).flatten = text ++ more) :
    recvRequest env (xs ++ s :: rest)
      = .message request (skip (text.length - (xs ++ [s]).flatten.length) rest) := by
  have hlist : ∀ zs, xs ++ s :: zs = xs ++ [s] ++ zs := fun zs => by simp
  have hread : (xs ++ [s]).flatten = xs.flatten ++ s := by simp
  generalize hn : (xs ++ [s]).flatten.length = n at *
  -- the request is what has been read of it and its rest
  have htake : (xs ++ [s]).flatten = text.take n := by
    rw [hlist, List.flatten_append] at hflat
    have htake := congrArg (List.take n) hflat
    rwa [← hn, List.take_left, hn, List.take_append_of_le_length (hn ▸ hsuits.own)] at htake
  have htext : (xs ++ [s, text.drop n]).flatten = text := by
    rw [hlist, List.flatten_append, htake, List.flatten_singleton, List.take_append_drop]
  obtain ⟨hsize, hstop, haccepted, hlength, hreq⟩ := hrequest
  obtain ⟨hfits, hbefore, hreached, hown, hharmless, hcounted⟩ := hsuits
  rw [hn] at hreached hown hharmless hcounted
  unfold headEnd at hbefore hreached hlength hreq
  have hxs : (scan env.uriRelaxed xs.flatten).halt = .input := by
    have hsplit : text = xs.flatten ++ (s ++ text.drop n) := by
      conv_lhs => rw [← htext]
      simp
    rw [hsplit] at hstop hbefore
    exact (scan_before hstop).1 hbefore
  have hs : scan env.uriRelaxed (xs.flatten ++ s) = scan env.uriRelaxed text := by
    have hsplit : text = xs.flatten ++ s ++ text.drop n := by
      conv_lhs => rw [← htext]
      simp
    rw [hsplit] at hstop hreached ⊢
    have hlen : (xs.flatten ++ s).length = n := by rw [← hread, hn]
    exact (scan_before hstop).2 (hlen ▸ hreached)
  -- the callbacks are those of the whole request
  have htokens : Tokens (text.take (scan env.uriRelaxed text).pos) (tokens env.uriRelaxed text) :=
    scan_tokens rfl hstop
  have hsame : (tokens env.uriRelaxed text).map (Token.seen (Cuts.of (xs ++ s :: rest)))
      = (tokens env.uriRelaxed text).map (Token.seen (Cuts.of (xs ++ [s, text.drop n]))) := by
    refine List.map_congr_left fun t ht => seen_congr (n := n) ?_ ((htokens.within t ht).mono ?_)
    · have hagree := Cuts.agreeTo_of (xs ++ [s]) rest [text.drop n]
      rwa [hn, ← hlist, ← hlist] at hagree
    · exact Nat.le_trans (List.length_take_le _ _) hreached
  have hsameRequest : SameRequest (xs ++ [s, text.drop n]) text (tokens env.uriRelaxed text) := by
    have htokens' := htokens.append (text.drop (scan env.uriRelaxed text).pos)
    rw [List.take_append_drop] at htokens'
    have hiff : ∀ rs : List Bytes, rs.flatten = text →
        (SameRequest rs text (tokens env.uriRelaxed text) ↔ Harmless env.uriRelaxed rs) := by
      rintro rs rfl
      exact sameRequest_iff (by omega) htokens' haccepted
    exact (hiff _ htext).mpr hharmless
  obtain ⟨p, hp, hmessage⟩ := (recvHead_reads
    (show [] ++ (xs ++ s :: rest) = xs ++ s :: rest from rfl)
    (fun s' hs' => ⟨hsolid s' (by rw [hlist]; exact List.mem_append_left _ hs'), hfits s' hs'⟩)
    (paused_new env _) ⟨by simp, rfl⟩ hxs hs hstop
    (show xs.length < (xs ++ s :: rest).flatten.length + 1 by
      have := length_le_flatten hsolid
      rw [List.length_append, List.length_cons] at this
      omega)).1 (by
        intro r hr
        exact hsameRequest.1 r (hsame ▸ hr))
  have hpRequest : p.request = headOf env.uriRelaxed text := by
    rw [hp.request]
    show fillAll ((tokens env.uriRelaxed text).map _) {} = _
    rw [hsame]
    exact hsameRequest.2
  rw [List.nil_append] at hmessage
  -- what is held, and what is still to come
  generalize hheld : s.drop ((scan env.uriRelaxed text).pos - xs.flatten.length) = held at hmessage
  have hrest : held ++ rest.flatten = (text ++ more).drop (scan env.uriRelaxed text).pos := by
    rw [← hflat, List.flatten_append, List.flatten_cons, List.drop_append,
      List.drop_of_length_le (Nat.le_of_lt hbefore), List.nil_append,
      List.drop_append_of_le_length, hheld]
    rw [hread, List.length_append] at hn
    omega
  have hheldLength : held.length = n - (scan env.uriRelaxed text).pos := by
    rw [← hheld, List.length_drop]
    rw [hread, List.length_append] at hn
    omega
  have hdrop : (text ++ more).drop (scan env.uriRelaxed text).pos
      = text.drop (scan env.uriRelaxed text).pos ++ more :=
    List.drop_append_of_le_length (by omega)
  have hdropLength : (text.drop (scan env.uriRelaxed text).pos).length
      = (bodyLen env (headOf env.uriRelaxed text)).toNat := by
    rw [List.length_drop]
    omega
  have hbody : withBody env p.request (held ++ rest.flatten) = request := by
    rw [hreq, hpRequest, hrest, hdrop]
    unfold withBody
    rw [← hdropLength, List.take_left, List.take_length]
  have hrestSolid : Solid rest := fun s' hs' => hsolid s' (by simp [hs'])
  have hlen : (held ++ rest.flatten).length
      = (bodyLen env (headOf env.uriRelaxed text)).toNat + more.length := by
    rw [hrest, hdrop, List.length_append, hdropLength]
  obtain ⟨hskip, hmore⟩ := rest_of_body hlength hheldLength hreached hown
  rw [recvRequest_of_head hmessage hrestSolid ?_ ?_, hbody, hpRequest, hskip]
  · rw [hpRequest, hlen]
    exact Int.le_trans (Int.self_le_toNat _) (Int.ofNat_le.mpr (Nat.le_add_right _ _))
  · intro hgt
    rw [hpRequest] at hgt ⊢
    obtain ⟨hlt, heq⟩ := hmore hgt
    rw [heq]
    exact hcounted hlt

/-! ## Successive calls -/

/-- The requests of successive calls, as long as there are any. -/
def recvRequests (env : Env) : Nat → Stream → Option (List HttpRequest × Stream)
  | 0, stream => some ([], stream)
  | n + 1, stream =>
    match recvRequest env stream with
    | .message request rest =>
      (recvRequests env n rest).map fun x => (request :: x.1, x.2)
    | .null | .fault => none

/-- The connection suits the requests: the reads of every call suit its request. -/
def Suited (env : Env) : List Bytes → Stream → Prop
  | [], _ => True
  | text :: texts, stream => ∃ xs s rest, stream = xs ++ s :: rest ∧ Suits env text xs s ∧
      Suited env texts (skip (text.length - (xs ++ [s]).flatten.length) rest)

/--
**Keep-alive.** On a connection that suits the requests that were sent, successive calls return these
requests in their order, and no byte behind them is gone.
-/
theorem recvRequests_of_suited {env : Env} {sent : List (Bytes × HttpRequest)} {stream : Stream}
    {more : Bytes} (hsolid : Solid stream) (hsent : ∀ x ∈ sent, IsRequest env x.1 x.2)
    (hflat : stream.flatten = (sent.map Prod.fst).flatten ++ more)
    (hsuited : Suited env (sent.map Prod.fst) stream) :
    ∃ rest, recvRequests env sent.length stream = some (sent.map Prod.snd, rest) ∧
      rest.flatten = more := by
  induction sent generalizing stream with
  | nil => exact ⟨stream, rfl, by simpa using hflat⟩
  | cons x sent ih =>
    obtain ⟨xs, s, rest, rfl, hsuits, hnext⟩ := hsuited
    rw [List.map_cons, List.flatten_cons, List.append_assoc] at hflat
    have hcall := recvRequest_of_suits (hsent x List.mem_cons_self) hsuits hsolid hflat
    have hrest : Solid rest := fun s' hs' => hsolid s' (by simp [hs'])
    have hlist : xs ++ s :: rest = xs ++ [s] ++ rest := by simp
    -- behind the request the next one begins
    have hbehind : (skip (x.1.length - (xs ++ [s]).flatten.length) rest).flatten
        = (sent.map Prod.fst).flatten ++ more := by
      have hdrop := congrArg (List.drop x.1.length) hflat
      rwa [List.drop_left, hlist, List.flatten_append, List.drop_append,
        List.drop_of_length_le hsuits.own, List.nil_append, ← flatten_skip] at hdrop
    obtain ⟨rest', hrun, hmore⟩ := ih (skip_solid _ hrest)
      (fun y hy => hsent y (List.mem_cons_of_mem _ hy)) hbehind hnext
    refine ⟨rest', ?_, hmore⟩
    rw [List.length_cons, recvRequests, hcall]
    simp only [hrun, Option.map_some, List.map_cons]

/-! ## A head in one read -/

/-- The reads do no harm to a head that comes in the first of them. -/
theorem harmless_of_head {u : Bool} {s : Bytes} {rest : List Bytes}
    (hstop : (scan u (s :: rest).flatten).halt = .stop)
    (hhead : headEnd u (s :: rest).flatten ≤ s.length) : Harmless u (s :: rest) := by
  have htokens : Tokens _ (tokens u (s :: rest).flatten) := scan_tokens rfl hstop
  have hwithin : ∀ t ∈ tokens u (s :: rest).flatten, t.Within s.length := fun t ht =>
    (htokens.within t ht).mono (Nat.le_trans (List.length_take_le _ _) hhead)
  have hbase : ∀ p < s.length, (Cuts.of (s :: rest)).base p = 0 := fun p hp =>
    (Cuts.covers_of [] s rest p hp).1
  have hwhole : ∀ p < s.length, (Cuts.of [(s :: rest).flatten]).base p = 0 := fun p hp =>
    base_whole (by rw [List.flatten_cons, List.length_append]; omega)
  refine ⟨?_, ?_, ?_, ?_, fun name => congrArg (headerOf name) ?_⟩
  · intro i p ht
    obtain ⟨-, -, -, hp⟩ := hwithin _ ht
    rw [hbase p hp, Nat.max_zero]
  · intro i p ht
    obtain ⟨-, -, -, hp⟩ := hwithin _ ht
    exact .inl (by rw [hbase p hp]; exact Nat.zero_le i)
  · intro e _ i p ht
    obtain ⟨-, -, -, hp⟩ := hwithin _ ht
    rw [hbase p hp]
    exact Nat.zero_le i
  · intro i p ht
    obtain ⟨-, -, hp⟩ := hwithin _ ht
    rw [hbase p hp]
    exact Nat.zero_le i
  · refine List.filterMap_congr fun t ht => ?_
    cases t with
    | field i colon value p =>
      obtain ⟨-, -, hp⟩ := hwithin _ ht
      simp only [Token.fieldSeen, hbase p hp, hwhole p hp]
    | _ => rfl

/-- A request without a body, and one with a body of two bytes. -/
def getThenPost : List Bytes :=
  [ascii "GET / HTTP/1.1\r\n\r\n", ascii "POST /p HTTP/1.1\r\ncontent-length: 2\r\n\r\nok"]

/-- What `recvRequest` is to return for a text. -/
def requestOf (env : Env) (text : Bytes) : HttpRequest :=
  withBody env (headOf env.uriRelaxed text) (text.drop (headEnd env.uriRelaxed text))

theorem isRequest_getThenPost {text : Bytes} (h : text ∈ getThenPost) :
    IsRequest plainEnv text (requestOf plainEnv text) := by
  simp only [getThenPost, List.mem_cons, List.not_mem_nil, or_false] at h
  rcases h with rfl | rfl
  all_goals exact ⟨by decide, by decide +kernel, by decide +kernel, by decide +kernel, rfl⟩

/-- The two requests as they are sent. -/
def getThenPostSent : List (Bytes × HttpRequest) :=
  getThenPost.map fun text => (text, requestOf plainEnv text)

theorem getThenPostSent_fst : getThenPostSent.map Prod.fst = getThenPost := by
  simp [getThenPostSent, Function.comp_def]

theorem length_getThenPostSent : getThenPostSent.length = 2 := List.length_map ..

theorem isRequest_getThenPostSent : ∀ x ∈ getThenPostSent, IsRequest plainEnv x.1 x.2 := by
  intro x hx
  obtain ⟨text, htext, rfl⟩ := List.mem_map.mp hx
  have h := isRequest_getThenPost htext
  generalize requestOf plainEnv text = request at h ⊢
  exact h

/-- A first read that holds the head, and nothing of the next request, suits the request. -/
theorem suits_of_head {env : Env} {s rest : Bytes}
    (hstop : (scan env.uriRelaxed (s ++ rest)).halt = .stop) (hfits : s.length ≤ env.buffSize)
    (hhead : headEnd env.uriRelaxed (s ++ rest) ≤ s.length)
    (hcounted : rest ≠ [] → 0 < toInt32 rest.length) : Suits env (s ++ rest) [] s := by
  have hread : ([] ++ [s]).flatten = s := by simp
  have hlength : (s ++ rest).length - s.length = rest.length := by
    rw [List.length_append, Nat.add_sub_cancel_left]
  refine ⟨by simpa using hfits, lt_pos_of_stop hstop, ?_, ?_, ?_, ?_⟩ <;> rw [hread]
  · exact hhead
  · rw [List.length_append]
    exact Nat.le_add_right _ _
  · rw [List.drop_left]
    have hflat : [s, rest].flatten = s ++ rest := by simp
    exact harmless_of_head (by rw [hflat]; exact hstop) (by rw [hflat]; exact hhead)
  · rw [hlength]
    refine fun hlt => hcounted ?_
    rintro rfl
    simp at hlt

/-- The body of the second request comes in two reads. -/
def inThreeReads : Stream :=
  [ascii "GET / HTTP/1.1\r\n\r\n", ascii "POST /p HTTP/1.1\r\ncontent-length: 2\r\n\r\no", ascii "k"]

theorem recvRequests_inThreeReads : ∃ rest, recvRequests plainEnv 2 inThreeReads
    = some (getThenPostSent.map Prod.snd, rest) ∧ rest.flatten = [] := by
  have hget : Suits plainEnv (ascii "GET / HTTP/1.1\r\n\r\n" ++ []) []
      (ascii "GET / HTTP/1.1\r\n\r\n") :=
    suits_of_head (by decide +kernel) (by decide) (by decide +kernel) (by decide)
  have hpost : Suits plainEnv (ascii "POST /p HTTP/1.1\r\ncontent-length: 2\r\n\r\no" ++ ascii "k") []
      (ascii "POST /p HTTP/1.1\r\ncontent-length: 2\r\n\r\no") :=
    suits_of_head (by decide +kernel) (by decide) (by decide +kernel) (by decide)
  rw [← length_getThenPostSent]
  refine recvRequests_of_suited (by decide) isRequest_getThenPostSent ?_ ?_ <;>
    rw [getThenPostSent_fst]
  · decide
  · exact ⟨[], _, _, rfl, hget, [], _, _, rfl, hpost, trivial⟩

/-! ## A read that goes on into the next request -/

/-- What is expected: successive calls return the requests that were sent. -/
def KeepsAll : Prop :=
  ∀ (env : Env) (sent : List (Bytes × HttpRequest)) (stream : Stream), Solid stream →
    (∀ x ∈ sent, IsRequest env x.1 x.2) → stream.flatten = (sent.map Prod.fst).flatten →
    ∃ rest, recvRequests env sent.length stream = some (sent.map Prod.snd, rest)

theorem not_keepsAll : ¬ KeepsAll := by
  intro hclaim
  obtain ⟨rest, hrun⟩ := hclaim plainEnv getThenPostSent [getThenPost.flatten] (by decide)
    isRequest_getThenPostSent (by rw [getThenPostSent_fst, List.flatten_singleton])
  have hlost : (recvRequests plainEnv 2 [getThenPost.flatten]).isSome = false := by decide +kernel
  rw [length_getThenPostSent] at hrun
  rw [hrun] at hlost
  cases hlost

end Nemo.Http
