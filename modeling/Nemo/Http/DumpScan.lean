import Nemo.Http.ClassArcs
import Nemo.Http.Dump
import Nemo.Http.Harmless

/-!
# The scan of a printed request

`run` is the scan of a text that comes in one read, with the request that its tokens make in the place of
the tokens. It is followed through the text piece by piece: what a piece does is the same whatever
follows it.
-/

namespace Nemo.Http

open Infra Automaton

/-! ## Runs -/

/-- The marks and the request of the tokens. `none` if a token is not accepted. -/
abbrev Reading := Option (RequestMarks × HttpRequest)

def readAct (text : Bytes) (a : Action) (fpc : Nat) (s : Reading) : Reading :=
  s.bind fun x =>
    let y := scanAct a fpc (x.1, [])
    let reports := y.2.map (Token.seen (Cuts.of [text]))
    if reports.all accepts then some (y.1, fillAll reports x.2) else none

def readingOf (text : Bytes) (y : Scanning) : Reading :=
  let reports := y.2.map (Token.seen (Cuts.of [text]))
  if reports.all accepts then some (y.1, fillAll reports {}) else none

/-- The rest `bs` of `text` is read in the state `q`. -/
def run (uriRelaxed : Bool) (text : Bytes) (q p : Nat) (bs : Bytes) (s : Reading) : Exit Nat Reading :=
  (machine uriRelaxed).exec (readAct text) q p bs s

theorem scanAct_append (a : Action) (p : Nat) (m : RequestMarks) (ts : List (Token Element)) :
    scanAct a p (m, ts) = ((scanAct a p (m, [])).1, ts ++ (scanAct a p (m, [])).2) := by
  cases a with
  | done =>
    unfold scanAct
    dsimp only
    split
    · rw [List.append_nil]
    · rfl
  | _ => simp [scanAct]

theorem readAct_readingOf (text : Bytes) (a : Action) (p : Nat) (y : Scanning) :
    readAct text a p (readingOf text y) = readingOf text (scanAct a p y) := by
  obtain ⟨m, ts⟩ := y
  rw [scanAct_append]
  unfold readingOf readAct
  dsimp only
  rw [List.map_append, List.all_append]
  cases hold : (ts.map (Token.seen (Cuts.of [text]))).all accepts with
  | false => rfl
  | true =>
    rw [if_pos rfl, Option.bind_some, Bool.true_and]
    split
    · unfold fillAll
      rw [List.foldl_append]
    · rfl

/-- A scan and a run end in the same way. -/
theorem run_of_scan (u : Bool) (text : Bytes) :
    (run u text httpParserStart 0 text (some ({}, {}))).halt = (scan u text).halt ∧
      (run u text httpParserStart 0 text (some ({}, {}))).pos = (scan u text).pos ∧
      (run u text httpParserStart 0 text (some ({}, {}))).acc = readingOf text (scan u text).acc := by
  have hperform : ∀ (p : Nat) (as : List Action) (y : Scanning),
      perform (readAct text) as p (readingOf text y) = readingOf text (perform scanAct as p y) := by
    intro p as
    induction as with
    | nil => exact fun _ => rfl
    | cons a as ih =>
      intro y
      show perform (readAct text) as p (readAct text a p (readingOf text y)) = _
      rw [readAct_readingOf]
      exact ih _
  have hrel := @exec_rel _ _ _ _ _ (machine u) scanAct (readAct text)
    (fun _ _ y s => s = readingOf text y) 0 text.length
    (fun _ p _ arc y _ _ _ h => h ▸ hperform p arc.actions y)
    httpParserStart 0 text ({}, []) (some ({}, {})) (Nat.le_of_eq (Nat.zero_add _)) rfl
  exact ⟨hrel.1, hrel.2.2.1, hrel.2.2.2⟩

/-! ## Pieces -/

variable {u : Bool} {text : Bytes} {s : Reading}

/-- An arc without actions into one of the states `S`. -/
def silent (S : List Nat) (arc : Arc Nat Action) : Bool :=
  arc.actions.isEmpty && !arc.stops && S.contains arc.target

/-- A percent-encoded byte leads from `q` to one of the states `S`, with `acts` at its beginning. -/
def pctGoes (q : Nat) (acts : List Action) (S : List Nat) : Bool :=
  (is '%').goes table q fun arc => arc.actions == acts && !arc.stops &&
    xdigit.goes table arc.target fun arc => arc.actions.isEmpty && !arc.stops &&
      xdigit.goes table arc.target (silent S)

/-- The machine stays in the states `S` for bytes of a class, and for percent-encoded bytes. -/
def stays (c : Class) (S : List Nat) : Bool :=
  S.all fun q => c.goes table q (silent S) && pctGoes q [] S

theorem run_step {q p : Nat} {b : UInt8} {arc : Arc Nat Action} (h : machine u q b = some arc)
    (hs : arc.stops = false) (bs : Bytes) :
    run u text q p (b :: bs) s =
      run u text arc.target (p + 1) bs (perform (readAct text) arc.actions p s) :=
  exec_of_goes h hs

theorem run_silent {S : List Nat} {q p : Nat} {c : Class} (h : c.goes table q (silent S) = true)
    {b : UInt8} (hb : c.contains u b = true) (bs : Bytes) :
    ∃ q' ∈ S, run u text q p (b :: bs) s = run u text q' (p + 1) bs s := by
  obtain ⟨⟨q', acts, stops⟩, harc, hsilent⟩ := Class.exists_arc h hb
  simp only [silent, Bool.and_eq_true, List.isEmpty_iff, Bool.not_eq_true', List.contains_iff_mem]
    at hsilent
  obtain ⟨⟨rfl, rfl⟩, hmem⟩ := hsilent
  exact ⟨q', hmem, run_step harc rfl bs⟩

theorem run_pct {S : List Nat} {acts : List Action} {q p : Nat} (hgoes : pctGoes q acts S = true)
    {h l : UInt8} (hh : xdigit.contains u h = true) (hl : xdigit.contains u l = true) (bs : Bytes) :
    ∃ q' ∈ S, run u text q p (37 :: h :: l :: bs) s =
      run u text q' (p + 3) bs (perform (readAct text) acts p s) := by
  have hpct : (is '%').contains u 37 = true := by cases u <;> decide
  obtain ⟨⟨q₁, acts₁, stops₁⟩, harc₁, h₁⟩ := Class.exists_arc hgoes hpct
  simp only [Bool.and_eq_true, beq_iff_eq, Bool.not_eq_true'] at h₁
  obtain ⟨⟨rfl, rfl⟩, hgoes₁⟩ := h₁
  obtain ⟨⟨q₂, acts₂, stops₂⟩, harc₂, h₂⟩ := Class.exists_arc hgoes₁ hh
  simp only [Bool.and_eq_true, List.isEmpty_iff, Bool.not_eq_true'] at h₂
  obtain ⟨⟨rfl, rfl⟩, hgoes₂⟩ := h₂
  rw [run_step harc₁ rfl, run_step harc₂ rfl]
  exact run_silent hgoes₂ hl bs

/-- **A text** is read without actions. -/
theorem run_text {c : Class} {S : List Nat} (h : stays c S = true) {xs : Bytes} (hxs : Text u c xs)
    {q : Nat} (hq : q ∈ S) (p : Nat) (ys : Bytes) :
    ∃ q' ∈ S, run u text q p (xs ++ ys) s = run u text q' (p + xs.length) ys s := by
  induction hxs generalizing q p with
  | nil => exact ⟨q, hq, rfl⟩
  | char hb _ ih =>
    have hgoes := (Bool.and_eq_true ..).mp (List.all_eq_true.mp h q hq)
    obtain ⟨q₁, hq₁, hstep⟩ := @run_silent u text s S q p c hgoes.1 _ hb (_ ++ ys)
    obtain ⟨q', hq', hrest⟩ := ih hq₁ (p + 1)
    refine ⟨q', hq', ?_⟩
    rw [List.cons_append, hstep, hrest, List.length_cons, Nat.add_assoc, Nat.add_comm 1]
  | pct hh hl _ ih =>
    have hgoes := (Bool.and_eq_true ..).mp (List.all_eq_true.mp h q hq)
    obtain ⟨q₁, hq₁, hstep⟩ := @run_pct u text s S [] q p hgoes.2 _ _ hh hl (_ ++ ys)
    obtain ⟨q', hq', hrest⟩ := ih hq₁ (p + 3)
    refine ⟨q', hq', ?_⟩
    refine hstep.trans (hrest.trans ?_)
    rw [List.length_cons, List.length_cons, List.length_cons, Nat.add_assoc, Nat.add_comm 3]

/-- A text that is not empty leads from `q` to one of the states `S`, with `acts` at its beginning. -/
def enters (c : Class) (q : Nat) (acts : List Action) (S : List Nat) : Bool :=
  (c.goes table q fun arc => arc.actions == acts && !arc.stops && S.contains arc.target) &&
    pctGoes q acts S && stays c S

theorem run_enters {c : Class} {q : Nat} {acts : List Action} {S : List Nat}
    (h : enters c q acts S = true) {xs : Bytes} (hxs : Text u c xs) (hne : xs ≠ []) (p : Nat)
    (ys : Bytes) :
    ∃ q' ∈ S, run u text q p (xs ++ ys) s =
      run u text q' (p + xs.length) ys (perform (readAct text) acts p s) := by
  simp only [enters, Bool.and_eq_true] at h
  obtain ⟨⟨hgoes, hpct⟩, hstays⟩ := h
  cases hxs with
  | nil => exact absurd rfl hne
  | char hb hrest =>
    obtain ⟨⟨q₁, acts₁, stops₁⟩, harc, h₁⟩ := Class.exists_arc hgoes hb
    simp only [Bool.and_eq_true, beq_iff_eq, Bool.not_eq_true', List.contains_iff_mem] at h₁
    obtain ⟨⟨rfl, rfl⟩, hmem⟩ := h₁
    obtain ⟨q', hq', hread⟩ := run_text hstays hrest hmem (p + 1) ys
    refine ⟨q', hq', (run_step harc rfl _).trans (hread.trans ?_)⟩
    rw [List.length_cons, Nat.add_assoc, Nat.add_comm 1]
  | pct hh hl hrest =>
    obtain ⟨q₁, hq₁, hstep⟩ := @run_pct u text s S acts q p hpct _ _ hh hl (_ ++ ys)
    obtain ⟨q', hq', hread⟩ := run_text hstays hrest hq₁ (p + 3) ys
    refine ⟨q', hq', hstep.trans (hread.trans ?_)⟩
    rw [List.length_cons, List.length_cons, List.length_cons, Nat.add_assoc, Nat.add_comm 3]

/-- Bytes of a class, without percent-encoded ones. -/
theorem run_bytes {c : Class} {q : Nat} (h : c.goes table q (silent [q]) = true) {xs : Bytes}
    (hxs : ∀ b ∈ xs, c.contains u b = true) (p : Nat) (ys : Bytes) :
    run u text q p (xs ++ ys) s = run u text q (p + xs.length) ys s := by
  induction xs generalizing p with
  | nil => rfl
  | cons b rest ih =>
    obtain ⟨q', hq', hstep⟩ := @run_silent u text s [q] q p c h b (hxs b List.mem_cons_self) (rest ++ ys)
    rw [List.mem_singleton.mp hq'] at hstep
    rw [List.cons_append, hstep, ih (fun b' hb' => hxs b' (List.mem_cons_of_mem _ hb')),
      List.length_cons, Nat.add_assoc, Nat.add_comm 1]

/-- One byte. -/
theorem run_byte {q p n : Nat} {arc : Arc Nat Action} (h : (byte n).goes table q (· == arc) = true)
    (hs : arc.stops = false) (hn : n < 256) (bs : Bytes) :
    run u text q p (UInt8.ofNat n :: bs) s =
      run u text arc.target (p + 1) bs (perform (readAct text) arc.actions p s) :=
  Class.exec_step h hs (contains_byte hn) p bs s

/-! ## What the tokens do -/

variable {p : Nat} {m : RequestMarks} {f : HttpRequest}

/-- A position of the text is in the only read. -/
theorem cuts_whole (hp : p < text.length) :
    (Cuts.of [text]).base p = 0 ∧ (Cuts.of [text]).buffer p = text := by
  have hcovers := Cuts.covers_of [] text [] p hp
  simpa using hcovers

theorem seen_element {i : Nat} (hp : p < text.length) (e : Element) :
    (Token.element e i p).seen (Cuts.of [text]) = element e text i p := by
  obtain ⟨hbase, hbuffer⟩ := cuts_whole hp
  rw [Token.seen, hbase, hbuffer, Nat.sub_zero, Nat.sub_zero]

/-- The string of a piece of the text. -/
theorem stringArg_piece {i : Nat} {piece ys : Bytes} (hdrop : text.drop i = piece ++ ys)
    (hp : p = i + piece.length) : stringArg (text.drop i) (len i p) = some piece := by
  subst hp
  rw [len_of_le (Nat.le_add_right _ _), Nat.add_sub_cancel_left, hdrop, stringArg,
    if_pos (by rw [List.length_append]; exact Nat.le_add_right _ _), List.take_left]

/-- A token that is accepted. -/
theorem readAct_token {a : Action} {t : Token Element} {r : Report Element}
    (ha : scanAct a p (m, []) = (m, [t])) (hr : t.seen (Cuts.of [text]) = r)
    (hacc : accepts r = true) : readAct text a p (some (m, f)) = some (m, fill r f) := by
  subst hr
  unfold readAct
  rw [Option.bind_some, ha]
  dsimp only
  rw [List.map_singleton, List.all_cons, List.all_nil, hacc]
  rfl

theorem readAct_path {piece ys : Bytes} (hdrop : text.drop m.mark = piece ++ ys)
    (hp : p = m.mark + piece.length) (hlt : p < text.length) :
    readAct text .requestPath p (some (m, f)) = some (m, { f with path := piece }) := by
  have harg := stringArg_piece hdrop hp
  rw [readAct_token rfl (seen_element hlt .requestPath)]
  · simp [element, fill, methodOf, versionWritten, textOf, fieldOf, harg, HeaderMap.setHeaders]
  · simp [element, accepts, harg]

theorem readAct_fragment {piece ys : Bytes} (hdrop : text.drop m.mark = piece ++ ys)
    (hp : p = m.mark + piece.length) (hlt : p < text.length) :
    readAct text .fragment p (some (m, f)) = some (m, { f with fragment := piece }) := by
  have harg := stringArg_piece hdrop hp
  rw [readAct_token rfl (seen_element hlt .fragment)]
  · simp [element, fill, methodOf, versionWritten, textOf, fieldOf, harg, HeaderMap.setHeaders]
  · simp [element, accepts, harg]

theorem readAct_query {piece ys : Bytes} (hdrop : text.drop m.queryStart = piece ++ ys)
    (hp : p = m.queryStart + piece.length) (hlt : p < text.length) :
    readAct text .queryString p (some (m, f)) = some (m, { f with query := piece }) := by
  have harg := stringArg_piece hdrop hp
  have hseen : (Token.kept Element.queryString m.queryStart p).seen (Cuts.of [text]) =
      element .queryString text m.queryStart p := by
    obtain ⟨hbase, hbuffer⟩ := cuts_whole hlt
    obtain ⟨hbase', -⟩ := @cuts_whole text m.queryStart (by omega)
    rw [Token.seen, hbase, hbuffer, hbase', Nat.sub_zero, Nat.sub_zero]
  rw [readAct_token rfl hseen]
  · simp [element, fill, methodOf, versionWritten, textOf, fieldOf, harg, HeaderMap.setHeaders]
  · simp [element, accepts, harg]

theorem readAct_uri (hlt : p < text.length) :
    readAct text .requestUri p (some (m, f)) = some (m, f) := by
  rw [readAct_token rfl (seen_element hlt .requestUri) rfl]
  simp [element, fill, methodOf, versionWritten, textOf, fieldOf, HeaderMap.setHeaders]

theorem readAct_method {piece ys : Bytes} (hdrop : text.drop m.mark = piece ++ ys)
    (hp : p = m.mark + piece.length) (hlt : p < text.length)
    (hvalid : string2HttpMethod piece ≠ .invalidMethod) :
    readAct text .requestMethod p (some (m, f)) =
      some (m, { f with method := string2HttpMethod piece }) := by
  have harg := stringArg_piece hdrop hp
  rw [readAct_token rfl (seen_element hlt .requestMethod)]
  · simp [element, fill, methodOf, versionWritten, textOf, fieldOf, harg, HeaderMap.setHeaders]
  · simpa [element, accepts, harg] using hvalid

theorem readAct_version {version : HttpVersion} (hlt : p < text.length)
    (hversion : versionOf (text.drop m.mark) (len m.mark p) = some version) :
    readAct text .httpVersion p (some (m, f)) = some (m, { f with version := version }) := by
  rw [readAct_token rfl (seen_element hlt .httpVersion)]
  · simp [element, fill, methodOf, versionWritten, textOf, fieldOf, hversion, HeaderMap.setHeaders]
  · simp [element, accepts, hversion]

theorem readAct_field {name value rest ys : Bytes} (hname : text.drop m.nameStart = name ++ rest)
    (hcolon : m.colon = m.nameStart + name.length) (hne : name ≠ [])
    (hvalue : text.drop m.mark = value ++ ys) (hp : p = m.mark + value.length)
    (hlt : p < text.length) :
    readAct text .writeValue p (some (m, f)) =
      some (m, { f with headers := f.headers.setHeader name value }) := by
  have hargName : stringArg (text.drop m.nameStart) (m.colon - m.nameStart) = some name := by
    have harg := stringArg_piece hname hcolon
    rwa [len_of_le (by omega)] at harg
  have hargValue := stringArg_piece hvalue hp
  have hpos : m.colon - m.nameStart ≠ 0 := by
    have := List.length_pos_iff.mpr hne
    omega
  have hseen : (Token.field m.nameStart m.colon m.mark p : Token Element).seen (Cuts.of [text]) =
      .field (text.drop m.nameStart) (m.colon - m.nameStart) (text.drop m.mark) (len m.mark p) := by
    obtain ⟨hbase, hbuffer⟩ := cuts_whole hlt
    simp only [Token.seen, hbase, hbuffer, Nat.sub_zero]
  rw [readAct_token rfl hseen]
  · simp [fill, methodOf, versionWritten, textOf, fieldOf, hargName, hargValue, hpos,
      HeaderMap.setHeaders]
  · simp [accepts, hargName, hargValue]

/-! ## The request line -/

/-- The state after `n` bytes of a method. -/
def afterMethod (n : Nat) : Nat := if n = 1 then 2 else 173 + n

theorem method_goes :
    (methodChar.goes table 1 (· == ⟨2, [.mark], false⟩) = true) ∧
    (∀ n < 20, n ≠ 0 → methodChar.goes table (afterMethod n) (silent [afterMethod (n + 1)]) = true) ∧
    ∀ n < 21, n ≠ 0 →
      (byte 32).goes table (afterMethod n) (· == ⟨3, [.requestMethod], false⟩) = true := by
  decide +kernel

/-- The rest of a method, and the blank behind it. -/
theorem run_afterMethod {xs : Bytes} (hxs : ∀ b ∈ xs, methodChar.contains u b = true) {n : Nat}
    (hn : n ≠ 0) (hlen : n + xs.length ≤ 20) (p : Nat) (ys : Bytes) :
    run u text (afterMethod n) p (xs ++ 32 :: ys) s =
      run u text 3 (p + xs.length + 1) ys (readAct text .requestMethod (p + xs.length) s) := by
  induction xs generalizing n p with
  | nil =>
    have hgoes := method_goes.2.2 n (by rw [List.length_nil] at hlen; omega) hn
    exact run_byte hgoes rfl (by decide) ys
  | cons b rest ih =>
    rw [List.length_cons] at hlen
    have hgoes := method_goes.2.1 n (by omega) hn
    obtain ⟨q', hq', hstep⟩ := @run_silent u text s _ _ p _ hgoes b (hxs b List.mem_cons_self)
      (rest ++ 32 :: ys)
    rw [List.mem_singleton.mp hq'] at hstep
    rw [List.cons_append, hstep, ih (fun b' hb' => hxs b' (List.mem_cons_of_mem _ hb'))
      (Nat.succ_ne_zero n) (by omega), List.length_cons, Nat.add_assoc p 1, Nat.add_comm 1]

/-- A printed method is the method again. -/
theorem method_printed (method : HttpMethod) :
    (∃ b rest, httpMethod2String method = b :: rest ∧ rest.length < 20) ∧
    string2HttpMethod (httpMethod2String method) = method := by
  constructor
  · cases method <;> exact ⟨_, _, rfl, by decide⟩
  · cases method <;> decide +kernel

/-- The grammar has no method with a hyphen. -/
theorem methodChar_printed {method : HttpMethod} (hm : method ≠ .msearch ∧ method ≠ .invalidMethod) :
    ∀ b ∈ httpMethod2String method, methodChar.contains u b = true := by
  obtain ⟨hsearch, hinvalid⟩ := hm
  cases u <;> cases method <;> first | decide +kernel | contradiction

theorem run_method {method : HttpMethod} (hm : method ≠ .msearch ∧ method ≠ .invalidMethod)
    {ys : Bytes} (htext : text = httpMethod2String method ++ 32 :: ys) :
    run u text httpParserStart 0 text (some ({}, {})) =
      run u text 3 ((httpMethod2String method).length + 1) ys
        (some ({}, { method := method })) := by
  obtain ⟨⟨b, rest, hname, hlen⟩, hvalid⟩ := method_printed method
  have hchars := @methodChar_printed u method hm
  have hread := @readAct_method text (httpMethod2String method).length {} {} (httpMethod2String method)
    (32 :: ys) (by rw [htext]; rfl) (by simp) (by rw [htext]; simp) (by rw [hvalid]; exact hm.2)
  rw [hvalid] at hread
  refine (congrArg (fun bs => run u text httpParserStart 0 bs _) htext).trans ?_
  rw [hname] at hchars hread ⊢
  rw [List.cons_append, httpParserStart,
    run_step (Class.arc_eq method_goes.1 (hchars b List.mem_cons_self)) rfl,
    show (2 : Nat) = afterMethod 1 from rfl,
    run_afterMethod (fun b' hb' => hchars b' (List.mem_cons_of_mem _ hb')) (by decide) (by omega),
    List.length_cons, Nat.zero_add, Nat.add_comm 1]
  exact congrArg _ hread

/-! ### The path -/

/-- The states at the end of an authority. -/
def authorityEnds : List Nat := [34, 35, 38, 42, 43, 46]

/-- The states at the end of a path. -/
def pathEnds : List Nat := 26 :: 33 :: authorityEnds

theorem host_goes :
    stays userinfo [34, 35, 38, 39] = true ∧ stays regName [34, 35] = true ∧
      stays regName [42, 43] = true ∧ digit.goes table 38 (silent [38]) = true ∧
      digit.goes table 46 (silent [46]) = true ∧
      (∀ q ∈ [34, 35, 38, 39], (byte 64).goes table q (· == ⟨42, [], false⟩) = true) ∧
      (∀ q ∈ [34, 35], (byte 58).goes table q (· == ⟨38, [], false⟩) = true) ∧
      ∀ q ∈ [42, 43], (byte 58).goes table q (· == ⟨46, [], false⟩) = true := by
  decide +kernel

/-- A host and a port, from states `S`. -/
theorem run_hostPort {S : List Nat} {q₀ : Nat} (hhost : stays regName S = true)
    (hcolon : ∀ q ∈ S, (byte 58).goes table q (· == ⟨q₀, [], false⟩) = true)
    (hdigits : digit.goes table q₀ (silent [q₀]) = true) {host port : Bytes}
    (h : Text u regName host)
    (h' : port = [] ∨ ∃ digits, (∀ b ∈ digits, digit.contains u b = true) ∧ port = 58 :: digits)
    {q : Nat} (hq : q ∈ S) (p : Nat) (ys : Bytes) :
    ∃ q' ∈ q₀ :: S, run u text q p (host ++ port ++ ys) s =
      run u text q' (p + (host ++ port).length) ys s := by
  obtain ⟨q₁, hq₁, hread⟩ := run_text hhost h hq p (port ++ ys)
  rw [List.append_assoc, hread]
  rcases h' with rfl | ⟨digits, hall, rfl⟩
  · exact ⟨q₁, List.mem_cons_of_mem _ hq₁, by rw [List.append_nil]; rfl⟩
  · refine ⟨q₀, List.mem_cons_self, ?_⟩
    refine (run_byte (hcolon q₁ hq₁) rfl (by decide) (digits ++ ys)).trans ?_
    refine (run_bytes hdigits hall _ ys).trans ?_
    rw [List.length_append, List.length_cons, Nat.add_assoc, Nat.add_assoc, Nat.add_comm 1]
    rfl

/-- **An authority** is read without actions. -/
theorem run_authority {authority : Bytes} (h : IsAuthority u authority) (p : Nat) (ys : Bytes) :
    ∃ q ∈ authorityEnds, run u text 34 p (authority ++ ys) s =
      run u text q (p + authority.length) ys s := by
  obtain ⟨huser, hhost, hhost', hdigits, hdigits', hat, hcolon, hcolon'⟩ := host_goes
  obtain ⟨user, host, port, rfl, hu, hh, hp⟩ := h
  rcases hu with rfl | ⟨t, ht, rfl⟩
  · obtain ⟨q, hq, hread⟩ := run_hostPort hhost hcolon hdigits hh hp (q := 34) (by decide) p ys
    refine ⟨q, ?_, hread⟩
    exact (by decide : ∀ q ∈ [38, 34, 35], q ∈ authorityEnds) q hq
  · obtain ⟨q₁, hq₁, hread₁⟩ := run_text huser ht (q := 34) (by decide) p (64 :: (host ++ port ++ ys))
    obtain ⟨q, hq, hread⟩ := run_hostPort hhost' hcolon' hdigits' hh hp (q := 42) (by decide)
      (p + t.length + 1) ys
    refine ⟨q, (by decide : ∀ q ∈ [46, 42, 43], q ∈ authorityEnds) q hq, ?_⟩
    have hsplit : t ++ [64] ++ host ++ port ++ ys = t ++ 64 :: (host ++ port ++ ys) := by simp
    rw [hsplit]
    refine hread₁.trans ((run_byte (hat q₁ hq₁) rfl (by decide) _).trans (hread.trans ?_))
    simp only [List.length_append, List.length_singleton, Nat.add_assoc]
    rfl

/-- A slash is not part of a percent-encoded byte. -/
theorem Text.of_slash {c : Class} {xs ys : Bytes} (h : Text u c (xs ++ 47 :: ys)) :
    Text u c (47 :: ys) := by
  generalize hzs : xs ++ 47 :: ys = zs at h
  have hslash : xdigit.contains u 47 = false := by cases u <;> decide
  induction h generalizing xs with
  | nil => simp at hzs
  | char hb hrest ih =>
    cases xs with
    | nil =>
      rw [List.nil_append] at hzs
      rw [hzs]
      exact .char hb hrest
    | cons x xs => exact ih (List.cons.inj hzs).2
  | pct hh hl hrest ih =>
    match xs, hzs with
    | [], hzs => cases hzs
    | [x], hzs =>
      cases hzs
      rw [hslash] at hh
      cases hh
    | [x, y], hzs =>
      cases hzs
      rw [hslash] at hl
      cases hl
    | x :: y :: z :: xs, hzs => exact ih (List.cons.inj (List.cons.inj (List.cons.inj hzs).2).2).2

theorem path_goes :
    (byte 47).goes table 3 (· == ⟨33, [.mark], false⟩) = true ∧
      (byte 47).goes table 33 (· == ⟨34, [], false⟩) = true ∧
      pchar.goes table 33 (silent [26]) = true ∧ pctGoes 33 [] [26] = true ∧
      stays pathChar [26] = true ∧
      ∀ q ∈ authorityEnds, (byte 47).goes table q (· == ⟨26, [], false⟩) = true := by
  decide +kernel

theorem pchar_of_path {b : UInt8} (hb : pathChar.contains u b = true) (hslash : b ≠ 47) :
    pchar.contains u b = true := by
  unfold pathChar Class.contains at hb
  rw [List.any_append, Bool.or_eq_true] at hb
  refine hb.resolve_right fun h47 => hslash ?_
  simp only [is, byte, Span.contains, List.any_cons, List.any_nil, Bool.or_false,
    Bool.not_false, Bool.true_or, Bool.and_true, Bool.and_eq_true, decide_eq_true_eq] at h47
  exact UInt8.toNat_inj.mp (Nat.le_antisymm h47.2 h47.1)

/-- **A path** sets the mark, and comes to an end of a path. -/
theorem run_path {path : Bytes} (hpath : ∃ rest, path = 47 :: rest ∧ Text u pathChar rest)
    (hauthority : HasAuthority u path) {m : RequestMarks} {f : HttpRequest} (p : Nat) (ys : Bytes) :
    ∃ q ∈ pathEnds, run u text 3 p (path ++ ys) (some (m, f)) =
      run u text q (p + path.length) ys (some ({ m with mark := p }, f)) := by
  obtain ⟨hfirst, hsecond, hchar, hpct, hstays, hends⟩ := path_goes
  obtain ⟨rest, rfl, hrest⟩ := hpath
  have hgoal : ∀ q ∈ pathEnds, run u text 33 (p + 1) (rest ++ ys) (some ({ m with mark := p }, f)) =
      run u text q (p + 1 + rest.length) ys (some ({ m with mark := p }, f)) →
      ∃ q ∈ pathEnds, run u text 3 p (47 :: rest ++ ys) (some (m, f)) =
        run u text q (p + (47 :: rest).length) ys (some ({ m with mark := p }, f)) := by
    intro q hq hread
    refine ⟨q, hq, (run_byte hfirst rfl (by decide) (rest ++ ys)).trans (hread.trans ?_)⟩
    rw [List.length_cons, Nat.add_assoc, Nat.add_comm 1]
  cases hrest with
  | nil => exact hgoal 33 (by decide) rfl
  | @char b rest hb hrest =>
    by_cases hslash : b = 47
    · subst hslash
      -- behind `//` there is an authority, and then a path
      obtain ⟨authority, segments, rfl, ha, hsegments⟩ := hauthority rest rfl
      obtain ⟨q₁, hq₁, hread₁⟩ := run_authority (s := some ({ m with mark := p }, f)) ha (p + 2)
        (segments ++ ys)
      have hread₂ : run u text 33 (p + 1) (47 :: (authority ++ segments) ++ ys)
          (some ({ m with mark := p }, f)) =
          run u text q₁ (p + 2 + authority.length) (segments ++ ys)
            (some ({ m with mark := p }, f)) := by
        refine (run_byte hsecond rfl (by decide) (authority ++ segments ++ ys)).trans ?_
        rw [List.append_assoc]
        exact hread₁
      rcases hsegments with rfl | hhead
      · refine hgoal q₁ (List.mem_cons_of_mem _ (List.mem_cons_of_mem _ hq₁)) (hread₂.trans ?_)
        rw [List.append_nil, List.nil_append, List.length_cons, Nat.add_assoc p 1, Nat.add_comm 1,
          Nat.add_assoc, Nat.add_comm 2, Nat.add_assoc]
      · obtain ⟨segments, rfl⟩ : ∃ rest, segments = 47 :: rest := by
          cases segments with
          | nil => cases hhead
          | cons b rest => exact ⟨rest, by rw [Option.some.inj hhead]⟩
        cases Text.of_slash hrest with
        | char _ htail =>
          obtain ⟨q₂, hq₂, hread₃⟩ := run_text (s := some ({ m with mark := p }, f)) hstays htail
            (q := 26) (by decide) (p + 2 + authority.length + 1) ys
          rw [List.mem_singleton.mp hq₂] at hread₃
          refine hgoal 26 (by decide) (hread₂.trans ?_)
          refine (run_byte (hends q₁ hq₁) rfl (by decide) (segments ++ ys)).trans (hread₃.trans ?_)
          simp only [List.length_cons, List.length_append]
          congr 1
          omega
    · obtain ⟨q₁, hq₁, hstep⟩ := @run_silent u text (some ({ m with mark := p }, f)) _ _ (p + 1) _ hchar
        b (pchar_of_path hb hslash) (rest ++ ys)
      obtain ⟨q₂, hq₂, hread⟩ := run_text (s := some ({ m with mark := p }, f)) hstays hrest hq₁
        (p + 2) ys
      rw [List.mem_singleton.mp hq₂] at hread
      refine hgoal 26 (by decide) (hstep.trans (hread.trans ?_))
      rw [List.length_cons, Nat.add_assoc p 1, Nat.add_comm 1, Nat.add_assoc, Nat.add_comm 2]
  | @pct h l rest hh hl hrest =>
    obtain ⟨q₁, hq₁, hstep⟩ := @run_pct u text (some ({ m with mark := p }, f)) _ _ _ (p + 1) hpct
      h l hh hl (rest ++ ys)
    obtain ⟨q₂, hq₂, hread⟩ := run_text (s := some ({ m with mark := p }, f)) hstays hrest hq₁
      (p + 4) ys
    rw [List.mem_singleton.mp hq₂] at hread
    refine hgoal 26 (by decide) (hstep.trans (hread.trans ?_))
    simp only [List.length_cons]
    congr 1
    omega

/-! ### Query and fragment -/

theorem drop_piece {xs ys : Bytes} (h : text.drop p = xs ++ ys) : text.drop (p + xs.length) = ys := by
  rw [← List.drop_drop, h, List.drop_left]

theorem lt_length {b : UInt8} {ys : Bytes} (h : text.drop p = b :: ys) : p < text.length := by
  by_contra hle
  rw [List.drop_of_length_le (by omega)] at h
  cases h

theorem uri_goes :
    (∀ q ∈ pathEnds,
      (byte 32).goes table q (· == ⟨4, [.requestPath, .requestUri], false⟩) = true ∧
      (byte 63).goes table q (· == ⟨29, [.requestPath], false⟩) = true ∧
      (byte 35).goes table q (· == ⟨20, [.requestPath, .requestUri], false⟩) = true) ∧
    enters queryChar 29 [.startQuery] [30] = true ∧
    (byte 32).goes table 30 (· == ⟨4, [.queryString, .requestUri], false⟩) = true ∧
    (byte 35).goes table 30 (· == ⟨20, [.queryString, .requestUri], false⟩) = true ∧
    enters queryChar 20 [.mark] [21] = true ∧
    (byte 32).goes table 21 (· == ⟨4, [.fragment], false⟩) = true := by
  decide +kernel

/-- The byte behind a path. -/
theorem run_pathEnd {q q' n : Nat} {acts : List Action}
    (h : (byte n).goes table q (· == ⟨q', acts, false⟩) = true) (hn : n < 256)
    (hacts : acts = [.requestPath] ∨ acts = [.requestPath, .requestUri]) {path ys : Bytes}
    (hdrop : text.drop m.mark = path ++ UInt8.ofNat n :: ys) (hp : p = m.mark + path.length) :
    run u text q p (UInt8.ofNat n :: ys) (some (m, f)) =
      run u text q' (p + 1) ys (some (m, { f with path := path })) := by
  have hlt : p < text.length := by
    rw [hp]
    exact lt_length (drop_piece hdrop)
  rw [run_byte h rfl hn]
  have hpath := readAct_path (f := f) hdrop hp hlt
  rcases hacts with rfl | rfl
  · exact congrArg _ hpath
  · refine congrArg _ ?_
    show readAct text .requestUri p (readAct text .requestPath p (some (m, f))) = _
    rw [hpath, readAct_uri hlt]

/-- A query, and the byte behind it. -/
theorem run_query {q' n : Nat}
    (h : (byte n).goes table 30 (· == ⟨q', [.queryString, .requestUri], false⟩) = true) (hn : n < 256)
    {query ys : Bytes} (hquery : Text u queryChar query) (hne : query ≠ [])
    (hdrop : text.drop p = query ++ UInt8.ofNat n :: ys) :
    run u text 29 p (query ++ UInt8.ofNat n :: ys) (some (m, f)) =
      run u text q' (p + query.length + 1) ys
        (some ({ m with queryStart := p }, { f with query := query })) := by
  have hlt := lt_length (drop_piece hdrop)
  obtain ⟨q, hq, hread⟩ := @run_enters u text (some (m, f)) _ _ _ _ uri_goes.2.1 _ hquery hne p
    (UInt8.ofNat n :: ys)
  rw [hread, List.mem_singleton.mp hq, run_byte h rfl hn]
  refine congrArg _ ?_
  show readAct text .requestUri (p + query.length) (readAct text .queryString (p + query.length)
    (some ({ m with queryStart := p }, f))) = _
  rw [readAct_query (m := { m with queryStart := p }) hdrop rfl hlt, readAct_uri hlt]

/-- A fragment, and the blank behind it. -/
theorem run_fragment {fragment ys : Bytes} (hfragment : Text u queryChar fragment)
    (hne : fragment ≠ []) (hdrop : text.drop p = fragment ++ 32 :: ys) :
    run u text 20 p (fragment ++ 32 :: ys) (some (m, f)) =
      run u text 4 (p + fragment.length + 1) ys
        (some ({ m with mark := p }, { f with fragment := fragment })) := by
  have hlt := lt_length (drop_piece hdrop)
  obtain ⟨q, hq, hread⟩ := @run_enters u text (some (m, f)) _ _ _ _ uri_goes.2.2.2.2.1 _ hfragment
    hne p (32 :: ys)
  rw [hread, List.mem_singleton.mp hq]
  refine (run_byte uri_goes.2.2.2.2.2 rfl (by decide) ys).trans ?_
  exact congrArg _ (readAct_fragment (m := { m with mark := p }) hdrop rfl hlt)

/-- The URI as it is printed. -/
def printedUri (r : HttpRequest) : Bytes :=
  r.path ++ (if r.query.isEmpty then [] else ascii "?") ++ r.query ++
    (if r.fragment.isEmpty then [] else ascii "#") ++ r.fragment

/-- What is printed behind a path. -/
def behindPath (query fragment : Bytes) : Bytes :=
  (if query.isEmpty then [] else 63 :: query) ++ (if fragment.isEmpty then [] else 35 :: fragment)

theorem printedUri_eq (r : HttpRequest) :
    printedUri r = r.path ++ behindPath r.query r.fragment := by
  unfold printedUri behindPath
  cases r.query <;> cases r.fragment <;> simp <;> rfl

/-- Query and fragment, and the blank behind them. -/
theorem run_behindPath {q : Nat} (hq : q ∈ pathEnds) {path query fragment ys : Bytes}
    (hquery : Text u queryChar query) (hfragment : Text u queryChar fragment)
    (hdrop : text.drop m.mark = path ++ (behindPath query fragment ++ 32 :: ys))
    (hp : p = m.mark + path.length) (hf : f.query = [] ∧ f.fragment = []) :
    ∃ m', m'.sent = m.sent ∧ run u text q p (behindPath query fragment ++ 32 :: ys) (some (m, f)) =
      run u text 4 (p + (behindPath query fragment).length + 1) ys
        (some (m', { f with path := path, query := query, fragment := fragment })) := by
  obtain ⟨hends, -, hquery32, hquery35, -⟩ := uri_goes
  obtain ⟨hend32, hend63, hend35⟩ := hends q hq
  obtain ⟨method, version, close, path₀, query₀, fragment₀, body, headers⟩ := f
  obtain ⟨rfl, rfl⟩ := hf
  have hbehind := drop_piece hdrop
  rw [← hp] at hbehind
  cases query with
  | nil =>
    cases fragment with
    | nil => exact ⟨m, rfl, run_pathEnd hend32 (by decide) (.inr rfl) hdrop hp⟩
    | cons b rest =>
      have htail : behindPath [] (b :: rest) ++ 32 :: ys = 35 :: (b :: rest ++ 32 :: ys) := rfl
      rw [htail] at hdrop hbehind ⊢
      have hread := @run_pathEnd u text p m
        { method, version, close, path := path₀, query := [], fragment := [], body, headers } q 20 35 _
        hend35 (by decide) (.inr rfl) path _ hdrop hp
      have hread' := @run_fragment u text (p + 1) m
        { method, version, close, path, query := [], fragment := [], body, headers } (b :: rest) ys
        hfragment nofun (@drop_piece text p [35] _ hbehind)
      refine ⟨{ m with mark := p + 1 }, rfl, hread.trans (hread'.trans ?_)⟩
      rw [Nat.add_right_comm p]
      rfl
  | cons a query =>
    have hread := fun zs hzs => @run_pathEnd u text p m
      { method, version, close, path := path₀, query := [], fragment := [], body, headers } q 29 63 _ hend63
      (by decide) (.inl rfl) path zs hzs hp
    cases fragment with
    | nil =>
      have htail : behindPath (a :: query) [] ++ 32 :: ys = 63 :: (a :: query ++ 32 :: ys) := by
        simp [behindPath]
      rw [htail] at hdrop hbehind ⊢
      have hread' := @run_query u text (p + 1) m
        { method, version, close, path, query := [], fragment := [], body, headers } 4 32 hquery32
        (by decide) (a :: query) ys hquery nofun (@drop_piece text p [63] _ hbehind)
      refine ⟨{ m with queryStart := p + 1 }, rfl, (hread _ hdrop).trans (hread'.trans ?_)⟩
      congr 1
      simp [behindPath]
      omega
    | cons b rest =>
      have htail : behindPath (a :: query) (b :: rest) ++ 32 :: ys =
          63 :: (a :: query ++ 35 :: (b :: rest ++ 32 :: ys)) := by
        simp [behindPath]
      rw [htail] at hdrop hbehind ⊢
      have hdrop' := @drop_piece text p [63] _ hbehind
      have hread₁ := @run_query u text (p + 1) m
        { method, version, close, path, query := [], fragment := [], body, headers } 20 35 hquery35
        (by decide) (a :: query) (b :: rest ++ 32 :: ys) hquery nofun hdrop'
      have hread₂ := @run_fragment u text (p + 1 + (a :: query).length + 1)
        { m with queryStart := p + 1 }
        { method, version, close, path, query := a :: query, fragment := [], body, headers } (b :: rest) ys
        hfragment nofun (@drop_piece text (p + 1 + (a :: query).length) [35] _ (drop_piece hdrop'))
      refine ⟨{ m with queryStart := p + 1, mark := p + 1 + (a :: query).length + 1 }, rfl,
        (hread _ hdrop).trans (hread₁.trans (hread₂.trans ?_))⟩
      congr 1
      simp [behindPath]
      omega

/-- **A URI**, and the blank behind it. -/
theorem run_uri {r : HttpRequest} (hr : r.Printable u) (hauthority : HasAuthority u r.path)
    (hf : f.query = [] ∧ f.fragment = []) {ys : Bytes}
    (hdrop : text.drop p = printedUri r ++ 32 :: ys) :
    ∃ m', m'.sent = m.sent ∧ run u text 3 p (printedUri r ++ 32 :: ys) (some (m, f)) =
      run u text 4 (p + (printedUri r).length + 1) ys
        (some (m', { f with path := r.path, query := r.query, fragment := r.fragment })) := by
  rw [printedUri_eq, List.append_assoc] at hdrop ⊢
  obtain ⟨q, hq, hpath⟩ := @run_path u text r.path hr.path hauthority m f p
    (behindPath r.query r.fragment ++ 32 :: ys)
  obtain ⟨m', hsent, hread⟩ := run_behindPath (m := { m with mark := p }) (f := f) hq hr.query
    hr.fragment hdrop rfl hf
  refine ⟨m', hsent, hpath.trans (hread.trans ?_)⟩
  rw [List.length_append, Nat.add_assoc p]

end Nemo.Http
