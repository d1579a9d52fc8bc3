import Nemo.Http.DumpErrors

/-!
# The round trip of a request

A request that is printed by `toString` and read by `recvRequest` is the request again, exactly when it
`Survives`: its method and path are in the grammar, `dump` leaves out none of its headers, and what the
first read leaves of the body has a length that an `int` can hold.
-/

namespace Nemo.Http

open Infra Automaton Net

variable {env : Env} {r : HttpRequest}

/-! ## The headers -/

theorem compareBytes_gt {f : UInt8 → UInt8} {s t : Bytes} :
    compareBytes f s t = .gt → compareBytes f t s = .lt := by
  induction s generalizing t with
  | nil => cases t <;> simp [compareBytes]
  | cons a s ih =>
    cases t with
    | nil => exact fun _ => rfl
    | cons b t =>
      simp only [compareBytes, Ordering.then_eq_gt, Ordering.then_eq_lt, Nat.compare_eq_gt,
        Nat.compare_eq_lt, Nat.compare_eq_eq]
      rintro (h | ⟨heq, h⟩)
      · exact .inl h
      · exact .inr ⟨heq.symm, ih h⟩

/-- Two names are the same for a header map if `strcasecmp` finds no difference. -/
theorem strcasecmp_of_same {a b : Bytes} (h : SortedMap.same caseInsensitiveLess a b = true) :
    strcasecmp a b = .eq := by
  simp only [SortedMap.same, caseInsensitiveLess, Bool.and_eq_true, Bool.not_eq_true',
    beq_eq_false_iff_ne] at h
  cases hcmp : strcasecmp a b with
  | eq => rfl
  | lt => exact absurd hcmp h.1
  | gt => exact absurd (compareBytes_gt hcmp) h.2

theorem entry_setHeaders (name : Bytes) (fields : List (Bytes × Bytes)) :
    (HeaderMap.setHeaders .empty fields).entry name = headerOf name fields :=
  SortedMap.entry_foldl_set caseInsensitiveLess_order name fields

/-- The lines of `dump` for a name. -/
theorem filter_printedFields (r : HttpRequest) (name : Bytes) :
    (r.printedFields.filter fun f => SortedMap.same caseInsensitiveLess f.1 name) =
      (if SortedMap.same caseInsensitiveLess (ascii "connection") name then
        [(ascii "connection", r.connection)] else []) ++
      ((r.headers.entry name).toList.filter fun header => !HttpRequest.isConnection header.1) ++
      (if !r.body.isEmpty && SortedMap.same caseInsensitiveLess (ascii "content-length") name then
        [(ascii "content-length", toDecimal r.body.length)] else []) := by
  rw [← SortedMap.filter_same caseInsensitiveLess_order, HttpRequest.printedFields, List.filter_cons,
    List.filter_append, List.filter_filter, List.filter_filter]
  cases SortedMap.same caseInsensitiveLess (ascii "connection") name <;>
    cases hlength : SortedMap.same caseInsensitiveLess (ascii "content-length") name <;>
      cases r.body <;> simp [hlength, Bool.and_comm]

/-- The names that `dump` adds are two names, and none of the request's. -/
theorem entry_reserved {u : Bool} (hr : r.Printable u) {name : Bytes}
    (hname : SortedMap.same caseInsensitiveLess (ascii "connection") name = true ∨
      SortedMap.same caseInsensitiveLess (ascii "content-length") name = true) :
    r.headers.entry name = none := by
  cases hentry : r.headers.entry name with
  | none => rfl
  | some header =>
    have hmem := List.mem_of_find?_eq_some hentry
    have hsame : SortedMap.same caseInsensitiveLess header.1 name = true :=
      List.find?_some (p := fun e : Bytes × Bytes => SortedMap.same caseInsensitiveLess e.1 name) hentry
    obtain ⟨hconnection, hlength⟩ := hr.reserved header hmem
    rcases hname with h | h
    · rw [SortedMap.same_comm] at h
      exact absurd (strcasecmp_of_same (caseInsensitiveLess_order.same_trans hsame h)) hconnection
    · rw [SortedMap.same_comm] at h
      exact absurd (strcasecmp_of_same (caseInsensitiveLess_order.same_trans hsame h)) hlength

theorem own_names_differ {name : Bytes}
    (h : SortedMap.same caseInsensitiveLess (ascii "connection") name = true) :
    SortedMap.same caseInsensitiveLess (ascii "content-length") name = false := by
  by_contra h'
  rw [Bool.not_eq_false, SortedMap.same_comm] at h'
  have := caseInsensitiveLess_order.same_trans h h'
  exact absurd this (by decide)

/-- The header that is sent for a name. -/
theorem entry_sentHeaders {u : Bool} (hr : r.Printable u) (name : Bytes) :
    r.sentHeaders.entry name =
      if SortedMap.same caseInsensitiveLess (ascii "connection") name then
        some (ascii "connection", r.connection)
      else if !r.body.isEmpty && SortedMap.same caseInsensitiveLess (ascii "content-length") name then
        some (ascii "content-length", toDecimal r.body.length)
      else r.headers.entry name := by
  have hset : ∀ (headers : HeaderMap) (key val : Bytes), (headers.setHeader key val).entry name =
      if SortedMap.same caseInsensitiveLess key name then
        some (((headers.entry key).map Prod.fst).getD key, val)
      else headers.entry name := fun headers key val =>
    SortedMap.entry_set caseInsensitiveLess_order headers key name val
  have hconnection : r.headers.entry (ascii "connection") = none :=
    entry_reserved hr (.inl (caseInsensitiveLess_order.same_refl _))
  have hlength :
      (r.headers.setHeader (ascii "connection") r.connection).entry (ascii "content-length") = none :=
    (SortedMap.entry_set caseInsensitiveLess_order _ _ _ _).trans
      ((if_neg (by decide)).trans (entry_reserved hr (.inr (caseInsensitiveLess_order.same_refl _))))
  unfold HttpRequest.sentHeaders
  cases hsame : SortedMap.same caseInsensitiveLess (ascii "connection") name with
  | true =>
    have hdiffer := own_names_differ hsame
    cases r.body <;> simp [hset, hsame, hdiffer, hconnection]
  | false =>
    cases r.body <;> simp [hset, hsame, hlength]

/-- What the printed lines make for a name. -/
theorem headerOf_printedFields {u : Bool} (hr : r.Printable u) (name : Bytes) :
    headerOf name r.printedFields =
      if SortedMap.same caseInsensitiveLess (ascii "connection") name then
        some (ascii "connection", r.connection)
      else if !r.body.isEmpty && SortedMap.same caseInsensitiveLess (ascii "content-length") name then
        some (ascii "content-length", toDecimal r.body.length)
      else (r.headers.entry name).filter fun header => !HttpRequest.isConnection header.1 := by
  unfold headerOf
  rw [filter_printedFields]
  cases hsame : SortedMap.same caseInsensitiveLess (ascii "connection") name with
  | true =>
    rw [entry_reserved hr (.inl hsame), own_names_differ hsame, Bool.and_false]
    rfl
  | false =>
    cases hlength : !r.body.isEmpty &&
        SortedMap.same caseInsensitiveLess (ascii "content-length") name with
    | true =>
      rw [entry_reserved hr (.inr (Bool.and_eq_true_iff.mp hlength).2)]
      rfl
    | false =>
      cases r.headers.entry name with
      | none => rfl
      | some header =>
        cases hdrop : HttpRequest.isConnection header.1 <;> simp [Option.filter_some, hdrop]

/-- **The printed headers** are those that are sent, if `dump` leaves none out. -/
theorem setHeaders_printedFields {u : Bool} (hr : r.Printable u) :
    HeaderMap.setHeaders .empty r.printedFields = r.sentHeaders ↔
      ∀ header ∈ r.headers.entries, HttpRequest.isConnection header.1 = false := by
  constructor
  · intro heq header hmem
    have hrefl := caseInsensitiveLess_order.same_refl header.1
    have hentry : r.headers.entry header.1 = some header := by
      have hfilter := SortedMap.filter_same caseInsensitiveLess_order r.headers header.1
      have hin : header ∈ (r.headers.entry header.1).toList :=
        hfilter ▸ List.mem_filter.mpr ⟨hmem, hrefl⟩
      simpa using hin
    have hname : (HeaderMap.setHeaders .empty r.printedFields).entry header.1 =
        r.sentHeaders.entry header.1 := by
      rw [heq]
    rw [entry_setHeaders, headerOf_printedFields hr, entry_sentHeaders hr, hentry] at hname
    split at hname
    · next h =>
      rw [entry_reserved hr (.inl h)] at hentry
      cases hentry
    split at hname
    · next h =>
      rw [entry_reserved hr (.inr (Bool.and_eq_true_iff.mp h).2)] at hentry
      cases hentry
    · cases hdrop : HttpRequest.isConnection header.1 with
      | false => rfl
      | true => simp [Option.filter_some, hdrop] at hname
  · intro hall
    refine SortedMap.ext_entry caseInsensitiveLess_order fun name => ?_
    rw [entry_setHeaders, headerOf_printedFields hr, entry_sentHeaders hr]
    cases hentry : r.headers.entry name with
    | none => rfl
    | some header =>
      have hkept := hall header (List.mem_of_find?_eq_some hentry)
      simp [Option.filter_some, hkept]

/-! ## The first read -/

/-- What the first read leaves of a text. -/
def behind (env : Env) (text : Bytes) : Stream :=
  if text.length ≤ env.buffSize then [] else [text.drop env.buffSize]

theorem behind_flatten (env : Env) (text : Bytes) :
    (behind env text).flatten = text.drop env.buffSize := by
  unfold behind
  split
  · next hle => rw [List.drop_of_length_le hle, List.flatten_nil]
  · rw [List.flatten_singleton]

theorem behind_solid (env : Env) (text : Bytes) : Solid (behind env text) := by
  unfold behind
  split
  · exact nofun
  · next hlt =>
    intro s hs
    rw [List.mem_singleton.mp hs, ← List.length_pos_iff, List.length_drop]
    omega

/-- **The first read** takes what the buffer can hold. -/
theorem recvRequest_firstRead (env : Env) (text : Bytes) :
    recvRequest env [text] = recvRequest env (text.take env.buffSize :: behind env text) := by
  have hle := env.buffSize_le
  have hread : Net.read env.buffSize [text] =
      Net.read env.buffSize (text.take env.buffSize :: behind env text) := by
    have hmin : min env.buffSize intMax = env.buffSize := by omega
    simp only [Net.read, behind, hmin, List.take_take, Nat.min_self, List.length_take]
    rw [if_pos (Nat.min_le_left _ _)]
  have hlength : (text.take env.buffSize :: behind env text).flatten.length = [text].flatten.length := by
    rw [List.flatten_cons, behind_flatten, List.take_append_drop, List.flatten_singleton]
  have hhead : ∀ fuel, recvHead env (fuel + 1) (.new env) [] [text] =
      recvHead env (fuel + 1) (.new env) [] (text.take env.buffSize :: behind env text) := by
    intro fuel
    rw [recvHead, recvHead, List.length_nil, Nat.sub_zero, hread]
  unfold recvRequest
  rw [hlength, hhead]

/-- The first read of a printed request has its head. -/
theorem take_toString (hfits : r.HeadFits env) :
    r.headText.length ≤ env.buffSize ∧ r.toString.take env.buffSize =
      r.headText ++ r.body.take (env.buffSize - r.headText.length) := by
  unfold HttpRequest.HeadFits at hfits
  rw [toString_eq, List.length_append, Nat.add_sub_cancel] at hfits
  exact ⟨hfits, by rw [toString_eq, List.take_append, List.take_of_length_le hfits]⟩

/-- **The head** of a printed request that the grammar takes. -/
theorem recvHead_printed (hr : r.Printable env.uriRelaxed)
    (hm : r.method ≠ .msearch ∧ r.method ≠ .invalidMethod)
    (hauthority : HasAuthority env.uriRelaxed r.path) (hfits : r.HeadFits env) (fuel : Nat) :
    ∃ p held, recvHead env (fuel + 1) (.new env) []
        (r.toString.take env.buffSize :: behind env r.toString) =
          .message (p, held) (behind env r.toString) ∧
      p.request = r.head ∧ held = r.body.take (env.buffSize - r.headText.length) := by
  obtain ⟨hsize, htake⟩ := take_toString hfits
  obtain ⟨hstop, hpos, hacc, hhead⟩ := scan_head hr hm hauthority htake
  generalize hs : r.toString.take env.buffSize = s at *
  generalize behind env r.toString = rest
  have hne : s ≠ [] := by
    rintro rfl
    rw [scan, scanFrom] at hstop
    cases hstop
  have hlength : s.length ≤ env.buffSize := by rw [← hs]; exact List.length_take_le _ _
  -- what follows is not seen in the head
  have hsame : (tokens env.uriRelaxed s).map (Token.seen (Cuts.of (s :: rest))) =
      (tokens env.uriRelaxed s).map (Token.seen (Cuts.of [s])) := by
    have htokens : Tokens (s.take (scan env.uriRelaxed s).pos) (tokens env.uriRelaxed s) :=
      scan_tokens rfl hstop
    refine List.map_congr_left fun t ht => seen_congr (n := s.length) ?_ ((htokens.within t ht).mono ?_)
    · have hagree := Cuts.agreeTo_of [s] rest []
      rwa [List.flatten_singleton] at hagree
    · exact (List.length_take_le' _ _)
  obtain ⟨p, hp, hmessage⟩ := (recvHead_reads (show [] ++ ([] ++ s :: rest) = s :: rest from rfl)
    (fun s' hs' => by rw [List.mem_singleton.mp hs']; exact ⟨hne, hlength⟩)
    (paused_new env _) ⟨by simp, rfl⟩ rfl rfl hstop (Nat.succ_pos fuel)).1 (hsame ▸ hacc)
  refine ⟨p, _, hmessage, ?_, ?_⟩
  · rw [hp.request]
    show fillAll ((tokens env.uriRelaxed s).map _) {} = _
    rw [hsame]
    exact hhead
  · show s.drop ((scan env.uriRelaxed s).pos - 0) = _
    rw [hpos, htake, Nat.sub_zero, List.drop_left]

/-! ## The body -/

/-- The length that the parser finds in the printed headers. -/
theorem bodyLen_head (hcasts : CastsDecimals env) (hr : r.Printable env.uriRelaxed)
    (hsize : r.body.length < 2 ^ 63) : bodyLen env r.head = r.body.length := by
  have hdiffer :
      SortedMap.same caseInsensitiveLess (ascii "connection") (ascii "content-length") = false := by
    decide
  have hrefl := caseInsensitiveLess_order.same_refl (ascii "content-length")
  have hfind : (HeaderMap.setHeaders .empty r.printedFields).find (ascii "content-length") =
      if r.body.isEmpty then none else some (toDecimal r.body.length) := by
    rw [SortedMap.find_eq_entry, entry_setHeaders, headerOf_printedFields hr, hdiffer, hrefl,
      entry_reserved hr (.inr hrefl)]
    cases r.body <;> rfl
  have hint : toInt64 r.body.length = r.body.length := Int.bmod_eq_of_le (by omega) (by omega)
  unfold bodyLen HeaderMap.getAsSize
  rw [show r.head.headers = HeaderMap.setHeaders .empty r.printedFields from rfl, hfind]
  cases hempty : r.body.isEmpty with
  | true =>
    rw [List.isEmpty_iff.mp hempty] at hint ⊢
    exact hint
  | false =>
    have hcast := hcasts ⟨r.body.length, by omega⟩
    dsimp only at hcast
    simp only [Bool.false_eq_true, if_false, hcast]
    exact hint

/-- `init` finds out whether the connection is to be closed. -/
theorem init_head (hr : r.Printable env.uriRelaxed) (body : Bytes) :
    { r.head with body := body }.init =
      { r with body := body, headers := HeaderMap.setHeaders .empty r.printedFields } := by
  have hfind :
      (HeaderMap.setHeaders .empty r.printedFields).find (ascii "connection") = some r.connection := by
    rw [SortedMap.find_eq_entry, entry_setHeaders, headerOf_printedFields hr,
      if_pos (caseInsensitiveLess_order.same_refl _)]
    rfl
  have hclose : r.connection.isEmpty = false ∧
      (strcasecmp r.connection (ascii "keep-alive") != .eq) = r.close := by
    unfold HttpRequest.connection
    cases r.close <;> decide
  unfold HttpRequest.init HttpRequest.head
  dsimp only
  rw [hfind, Option.getD_some, if_neg (by rw [hclose.1]; exact Bool.false_ne_true), hclose.2]

/-- The request that is returned for the head of a printed request and its body. -/
theorem withBody_head (hcasts : CastsDecimals env) (hr : r.Printable env.uriRelaxed)
    (hsize : r.body.length < 2 ^ 63) :
    withBody env r.head r.body = { r with headers := HeaderMap.setHeaders .empty r.printedFields } := by
  unfold withBody
  rw [bodyLen_head hcasts hr hsize]
  split
  · rw [Int.toNat_natCast, List.take_length, init_head hr]
  · next hempty =>
    have hnil : r.body = [] := List.length_eq_zero_iff.mp (by omega)
    have hinit := init_head hr []
    rw [← hnil] at hinit
    rw [← hinit]
    unfold HttpRequest.head
    rw [hnil]

/-- A body whose rest no `int` counts. -/
theorem recvBody_uncounted {n k : Nat} {held : Bytes} {stream : Stream} (hk : held.length + k = n)
    (hpos : 0 < k) (hint : ¬ 0 < toInt32 k) : recvBody n held stream = none := by
  have hnat : ((n : Int) - (held.length : Int)).toNat = k := by omega
  unfold recvBody
  extract_lets len bodyLen
  have hbodyLen : bodyLen > 0 := by
    show (n : Int) - held.length > 0
    omega
  rw [if_pos hbodyLen, show bodyLen.toNat = k from hnat, readFixSize]
  simp only [if_neg hint, Option.map_none]

/-- **What `recvRequest` returns** for a printed request that the grammar takes. -/
theorem recvRequest_toString (hcasts : CastsDecimals env) (hr : r.Printable env.uriRelaxed)
    (hm : r.method ≠ .msearch ∧ r.method ≠ .invalidMethod)
    (hauthority : HasAuthority env.uriRelaxed r.path) (hfits : r.HeadFits env)
    (hsize : r.body.length < 2 ^ 63) :
    (env.buffSize < r.toString.length ∧ ¬ 0 < toInt32 (r.toString.length - env.buffSize : Nat) →
      recvRequest env [r.toString] = .null) ∧
    ((env.buffSize < r.toString.length → 0 < toInt32 (r.toString.length - env.buffSize : Nat)) →
      ∃ rest, recvRequest env [r.toString] =
        .message { r with headers := HeaderMap.setHeaders .empty r.printedFields } rest) := by
  obtain ⟨p, held, hhead, hp, hheld⟩ := recvHead_printed hr hm hauthority hfits
    (r.toString.take env.buffSize :: behind env r.toString).flatten.length
  obtain ⟨hle, htake⟩ := take_toString hfits
  have hn : bodyLen env p.request = r.body.length := by rw [hp, bodyLen_head hcasts hr hsize]
  have hflat : held ++ (behind env r.toString).flatten = r.body := by
    rw [hheld, behind_flatten, toString_eq, List.drop_append, List.drop_of_length_le hle,
      List.nil_append, List.take_append_drop]
  have hlength : r.toString.length = r.headText.length + r.body.length := by
    rw [toString_eq, List.length_append]
  have hheldLength : held.length = min (env.buffSize - r.headText.length) r.body.length := by
    rw [hheld, List.length_take]
  rw [recvRequest_firstRead]
  constructor
  · rintro ⟨hlt, hint⟩
    exact recvRequest_none hhead hn (by omega) (recvBody_uncounted (by omega) (by omega) hint)
  · intro hint
    have hrecv := recvRequest_of_head hhead (behind_solid env r.toString) (by rw [hn, hflat]) (by
      intro hgt
      rw [hn] at hgt ⊢
      -- what is left of the body is what is left of the text
      have hrest : (r.body.length : Int) - held.length = (r.toString.length - env.buffSize : Nat) := by
        omega
      rw [hrest]
      exact hint (by omega))
    rw [hflat] at hrecv
    rw [hrecv, hp, withBody_head hcasts hr hsize]
    exact ⟨_, rfl⟩

/-! ## Requests that are not returned -/

/-- No callback sets the method that is none. -/
theorem onReport_method {report : Report Element} {f f' : Filling} (h : onReport report f = some f')
    (hf : f.1.method ≠ .invalidMethod) : f'.1.method ≠ .invalidMethod := by
  obtain ⟨request, error⟩ := f
  cases report with
  | field name flen value vlen =>
    simp only [onReport, onRequestHttpField] at h
    split at h
    · cases h
      exact hf
    · obtain ⟨key, -, h⟩ := Option.bind_eq_some_iff.mp h
      obtain ⟨val, -, h⟩ := Option.bind_eq_some_iff.mp h
      cases h
      exact hf
  | element e text length =>
    cases e with
    | requestMethod =>
      obtain ⟨name, -, rfl⟩ := Option.map_eq_some_iff.mp h
      simp only [onRequestMethod]
      split
      · exact hf
      · next hne => exact hne
    | httpVersion =>
      obtain rfl := Option.some.inj h
      simp only [onRequestVersion]
      split <;> exact hf
    | fragment | requestPath | queryString =>
      obtain ⟨-, -, rfl⟩ := Option.map_eq_some_iff.mp h
      exact hf
    | requestUri | headerDone =>
      cases h
      exact hf

theorem onReports_method {reports : List (Report Element)} {f f' : Filling}
    (h : onReports reports f = some f') (hf : f.1.method ≠ .invalidMethod) :
    f'.1.method ≠ .invalidMethod := by
  induction reports generalizing f with
  | nil =>
    cases h
    exact hf
  | cons report reports ih =>
    rw [onReports, List.foldlM_cons, Option.bind_eq_bind, Option.bind_eq_some_iff] at h
    obtain ⟨f₁, h₁, h₂⟩ := h
    exact ih h₂ (onReport_method h₁ hf)

theorem recvHead_method {fuel : Nat} {p : HttpRequestParser} {held : Bytes} {stream rest : Stream}
    {x : HttpRequestParser × Bytes} (h : recvHead env fuel p held stream = .message x rest)
    (hp : p.request.method ≠ .invalidMethod) : x.1.request.method ≠ .invalidMethod := by
  induction fuel generalizing p held stream with
  | zero => cases h
  | succ fuel ih =>
    rw [recvHead] at h
    dsimp only at h
    split at h
    · cases h
    split at h
    · cases h
    · next p' held' nparse hexecute =>
      obtain ⟨⟨parser, reports, offset⟩, -, hexecute⟩ := Option.bind_eq_some_iff.mp hexecute
      obtain ⟨⟨request, error⟩, hreports, hexecute⟩ := Option.bind_eq_some_iff.mp hexecute
      obtain rfl : (⟨parser, request, error⟩ : HttpRequestParser) = p' :=
        congrArg Prod.fst (Option.some.inj hexecute)
      have hp' : request.method ≠ .invalidMethod := onReports_method hreports hp
      split at h
      · cases h
      split at h
      · cases h
      split at h
      · cases h
        exact hp'
      · exact ih h hp'

/-- No request that is returned has the method that is none. -/
theorem recvRequest_method {stream rest : Stream} {request : HttpRequest}
    (h : recvRequest env stream = .message request rest) : request.method ≠ .invalidMethod := by
  obtain ⟨p, held, rest', hhead, hcompletes, -⟩ := head_of_recvRequest h
  have hp := recvHead_method hhead (by decide : ({} : HttpRequest).method ≠ .invalidMethod)
  have hinit : ∀ q : HttpRequest, q.init.method = q.method := by
    intro q
    unfold HttpRequest.init
    dsimp only
    split <;> rfl
  rcases hcompletes with rfl | ⟨body, rfl⟩
  · rwa [hinit]
  · rwa [hinit]

/-- A text whose first read the machine fails on is no request. -/
theorem not_message_of_error {text : Bytes} (hne : text ≠ [])
    (herror : (scan env.uriRelaxed (text.take env.buffSize)).halt = .error) {request : HttpRequest}
    {rest : Stream} : recvRequest env [text] ≠ .message request rest := by
  rw [recvRequest_firstRead]
  intro h
  obtain ⟨p, held, rest', hhead, -, -⟩ := head_of_recvRequest h
  have hsolid : text.take env.buffSize ≠ [] := by
    have := env.buffSize_pos
    have := List.length_pos_iff.mpr hne
    rw [← List.length_pos_iff, List.length_take]
    omega
  obtain ⟨new, -, -, hbad⟩ := recvHead_round
    (show [] ++ text.take env.buffSize :: behind env text = text.take env.buffSize :: behind env text
      from rfl)
    hsolid (List.length_take_le _ _) (paused_new env _) rfl
    (text.take env.buffSize :: behind env text).flatten.length
  exact hbad (.inl herror) _ _ hhead

/-- A path ends at a blank, a query or a fragment. -/
theorem exists_behindPath (query fragment zs : Bytes) : ∃ c ys, c ∈ [(32 : UInt8), 35, 63] ∧
    behindPath query fragment ++ 32 :: zs = c :: ys := by
  cases query with
  | cons => exact ⟨63, _, by decide, rfl⟩
  | nil =>
    cases fragment with
    | cons => exact ⟨35, _, by decide, rfl⟩
    | nil => exact ⟨32, _, by decide, rfl⟩

/-! ## The round trip -/

/--
**A printed request is read again** exactly when it survives: its method is one of the grammar, a first
`//` of its path has an authority behind it, no name of a header is a beginning of `connection`, and an
`int` can count what is left of the body behind the first read.
-/
theorem HttpRequest.roundTrips_iff (env : Env) (r : HttpRequest) (hcasts : CastsDecimals env)
    (hr : r.Printable env.uriRelaxed) (hfits : r.HeadFits env) (hsize : r.body.length < 2 ^ 63) :
    r.RoundTrips env ↔ r.Survives env := by
  obtain ⟨hle, htake⟩ := take_toString hfits
  constructor
  · rintro ⟨rest, hrecv⟩
    have hne : r.toString ≠ [] := by
      rw [toString_eq, HttpRequest.headText]
      simp
    have hinvalid := recvRequest_method hrecv
    have hsearch : r.method ≠ .msearch := by
      intro hm
      refine not_message_of_error hne ?_ hrecv
      rw [htake, headText_append, hm]
      exact scan_error_of_msearch rfl
    have hauthority : HasAuthority env.uriRelaxed r.path := by
      by_contra hno
      refine not_message_of_error hne ?_ hrecv
      obtain ⟨c, ys, hc, hbehind⟩ := exists_behindPath r.query r.fragment
        (printedVersion r.version ++ 13 :: 10 :: (printedLines r.printedFields ++ 13 :: 10 ::
          r.body.take (env.buffSize - r.headText.length)))
      refine @scan_error_of_path _ _ r.method ⟨hsearch, hinvalid⟩ r.path ys c hr.path hc hno ?_
      rw [htake, headText_append, printedUri_eq, List.append_assoc, hbehind]
    obtain ⟨hnull, hmessage⟩ :=
      recvRequest_toString hcasts hr ⟨hsearch, hinvalid⟩ hauthority hfits hsize
    have hbody : env.buffSize < r.toString.length →
        0 < toInt32 (r.toString.length - env.buffSize : Nat) := by
      intro hlt
      by_contra hint
      rw [hnull ⟨hlt, hint⟩] at hrecv
      cases hrecv
    refine ⟨⟨hsearch, hinvalid⟩, hauthority, (setHeaders_printedFields hr).mp ?_, hbody⟩
    obtain ⟨rest', hrecv'⟩ := hmessage hbody
    rw [hrecv'] at hrecv
    have heq := (Received.message.inj hrecv).1
    exact congrArg HttpRequest.headers heq
  · rintro ⟨hm, hauthority, hheaders, hbody⟩
    obtain ⟨rest, hrecv⟩ := (recvRequest_toString hcasts hr hm hauthority hfits hsize).2 hbody
    rw [(setHeaders_printedFields hr).mpr hheaders] at hrecv
    exact ⟨rest, hrecv⟩

theorem foldl_toDecimal (n : Nat) :
    (toDecimal n).foldl (fun n b => 10 * n + (b.toNat - 48)) 0 = n := by
  unfold toDecimal
  split
  · next h => rw [h]; rfl
  · conv_rhs => rw [← Nat.ofDigits_digits 10 n, Nat.ofDigits_eq_foldr]
    rw [List.foldl_map, List.foldl_reverse]
    refine List.foldr_ext _ _ _ fun d hd m => ?_
    have hlt : d < 10 := Nat.digits_lt_base (by decide) hd
    rw [UInt8.toNat_ofNat', Nat.mod_eq_of_lt (by omega), Nat.cast_id]
    omega

theorem castsDecimals_plainEnv : CastsDecimals plainEnv := by
  intro n
  have hne : toDecimal n ≠ [] := by
    unfold toDecimal
    split
    · nofun
    · next h => simpa using Nat.digits_ne_nil_iff_ne_zero.mpr h
  show decimal (toDecimal n) = some n
  unfold decimal
  simp only [foldl_toDecimal]
  rw [dif_pos ⟨hne, isDigit_toDecimal, n.isLt⟩]

theorem Text.of_all {u : Bool} {c : Class} {xs : Bytes} (h : ∀ b ∈ xs, c.contains u b = true) :
    Text u c xs := by
  induction xs with
  | nil => exact .nil
  | cons b xs ih =>
    exact .char (h b List.mem_cons_self) (ih fun b' hb' => h b' (List.mem_cons_of_mem _ hb'))

/-- A request with a header and with everything that is optional. -/
def sentPost : HttpRequest where
  method := .post
  close := false
  path := ascii "/a/b"
  query := ascii "c=d"
  fragment := ascii "e"
  body := ascii "hi"
  headers := ⟨[(ascii "Host", ascii "h")], by simp⟩

theorem printable_sentPost : sentPost.Printable false where
  path := ⟨ascii "a/b", rfl, .of_all (by decide +kernel)⟩
  query := .of_all (by decide +kernel)
  fragment := .of_all (by decide +kernel)
  name := by decide +kernel
  reserved := by decide +kernel
  value := by decide +kernel

theorem roundTrips_sentPost : sentPost.RoundTrips plainEnv :=
  (HttpRequest.roundTrips_iff plainEnv sentPost castsDecimals_plainEnv printable_sentPost
    (by unfold HttpRequest.HeadFits; decide +kernel) (by decide)).mpr
    { method := by decide
      path := fun rest h => by
        have hsecond : (97 : UInt8) = 47 := (List.cons.inj (List.cons.inj h).2).1
        exact absurd hsecond (by decide)
      headers := by decide +kernel
      body := by decide +kernel }

/-- What is expected: a request that is printed is read again. -/
def RoundTripsAll : Prop :=
  ∀ (env : Env) (r : HttpRequest), CastsDecimals env → r.Printable env.uriRelaxed → r.HeadFits env →
    r.body.length < 2 ^ 63 → r.RoundTrips env

/-- A request with a header whose name is a beginning of `connection`. -/
def sentCon : HttpRequest where
  headers := ⟨[(ascii "Con", ascii "x")], by simp⟩

theorem printable_sentCon : sentCon.Printable false where
  path := ⟨[], rfl, .nil⟩
  query := .nil
  fragment := .nil
  name := by decide +kernel
  reserved := by decide +kernel
  value := by decide +kernel

/-- The value of a header of the request that has been received. -/
def Received.header (name : Bytes) : Received HttpRequest → Option Bytes
  | .message request _ => request.headers.find name
  | _ => none

theorem not_roundTripsAll : ¬ RoundTripsAll := by
  intro hclaim
  obtain ⟨rest, hrecv⟩ := hclaim plainEnv sentCon castsDecimals_plainEnv printable_sentCon
    (by unfold HttpRequest.HeadFits; decide +kernel) (by decide)
  have hlost : (recvRequest plainEnv [sentCon.toString]).header (ascii "Con") = none := by decide +kernel
  rw [hrecv] at hlost
  have hsent : sentCon.sentHeaders.find (ascii "Con") = some (ascii "x") := by decide +kernel
  exact Option.some_ne_none _ (hsent.symm.trans hlost)

end Nemo.Http
