import Nemo.Http.DumpErrors

/-!
# The method and the version of a request line

What `HttpRequestParser` makes of a request that it is given at once: the method, which `String2HttpMethod` finds from a
prefix of its name, and the version.

* `methodTaken_iff` — the method is the one of the request line if it is spelled out; a request line with a method of
  `HTTP_METHOD_MAP` is accepted unless the method is `M-SEARCH`, which the grammar does not have
-/

namespace Nemo.Http

open Infra Automaton

/-! ## Request lines -/

/-- The strings of `HTTP_METHOD_MAP`. -/
def methodNames : List Bytes := httpMethodMap.map Prod.snd

def versionNames : List Bytes := [ascii "HTTP/1.0", ascii "HTTP/1.1"]

/-- `CRLF` -/
def lineEnds : List Bytes := [[13, 10], [10]]

structure RequestLine where
  method : Bytes
  uri : Bytes
  version : Bytes
  crlf : Bytes

def RequestLine.text (line : RequestLine) : Bytes :=
  line.method ++ 32 :: (line.uri ++ 32 :: (line.version ++ line.crlf))

/-- `data` is a request that begins with the request line. The requests of raw sockets begin with `<` or `@`. -/
structure RequestLine.Begins (line : RequestLine) (data : Bytes) : Prop where
  text : line.text <+: data
  method : 32 ∉ line.method
  uri : 32 ∉ line.uri
  version : 10 ∉ line.version ∧ 13 ∉ line.version
  crlf : line.crlf ∈ lineEnds
  http : data.head? ≠ some 60 ∧ data.head? ≠ some 64

/-- The machine reads `uri` between the two blanks of the request line. -/
def IsUri (uriRelaxed : Bool) (uri : Bytes) : Prop :=
  32 ∉ uri ∧ ∃ acts, (machine uriRelaxed).walk 3 0 (uri ++ [32]) = some (4, acts)

/-- The parser finishes on `data` without an error. -/
def Finishes (env : Env) (data : Bytes) (request : HttpRequest) : Prop :=
  ∃ p rest offset, (HttpRequestParser.new env).execute data = some (p, rest, offset) ∧
    p.isFinished = 1 ∧ p.error = .ok ∧ p.request = request

/-- Method and version are those of the request line. -/
def RequestLine.Taken (line : RequestLine) (request : HttpRequest) : Prop :=
  httpMethod2String request.method = line.method ∧ printedVersion request.version = line.version

/-- The parser reads the whole line without an error. -/
def RequestLine.Accepted (line : RequestLine) (env : Env) : Prop :=
  ∃ p offset, (HttpRequestParser.new env).execute line.text = some (p, [], offset) ∧ p.hasError = false

/-- A line with a method of `HTTP_METHOD_MAP` and one of the two versions. -/
structure RequestLine.Known (line : RequestLine) (uriRelaxed : Bool) : Prop where
  method : line.method ∈ methodNames
  uri : IsUri uriRelaxed line.uri
  version : line.version ∈ versionNames
  crlf : line.crlf ∈ lineEnds

/-! ## The machine on a request line -/

/-- The states in which a method is read, behind its first byte. -/
def inMethod (q : Nat) : Bool := q == 2 || (175 ≤ q && q ≤ 193)

def inUri (q : Nat) : Bool := q == 3 || (19 ≤ q && q ≤ 174)

def inHeaders (q : Nat) : Bool := 13 ≤ q && q ≤ 18

/-- The actions between the blanks of a request line. -/
def uriActions : List Action := [.mark, .requestPath, .requestUri, .fragment, .startQuery, .queryString]

def uriArc (S : Nat → Bool) (arc : Arc Nat Action) : Bool :=
  !arc.stops && arc.actions.all uriActions.contains && S arc.target

/-- A row for bytes outside of `D`, with an arc of the one kind, or for bytes of `D`, with an arc of the other. -/
def Row.parts (D : Class) (inner outer : Arc Nat Action → Bool) (r : Row Action) : Bool :=
  (r.on.apart D && inner r.arc) || (r.on.within D && outer r.arc)

/-- All rows of the states `S` are of these kinds. -/
def partsTable (S : Nat → Bool) (D : Class) (inner outer : Nat → Arc Nat Action → Bool) : Bool :=
  table.all fun e => e.2.all fun r => !S e.1 || r.parts D (inner e.1) (outer e.1)

variable {u : Bool} {q : Nat} {b : UInt8} {arc : Arc Nat Action}

theorem arc_of_parts {S : Nat → Bool} {D : Class} {inner outer : Nat → Arc Nat Action → Bool}
    (h : partsTable S D inner outer = true) (hq : S q = true) (harc : machine u q b = some arc) :
    (D.contains u b = false → inner q arc = true) ∧ (D.contains u b = true → outer q arc = true) := by
  obtain ⟨r, rfl, hon, hrow⟩ :=
    machine_of_table (P := fun q r => !S q || r.parts D (inner q) (outer q)) h harc
  rw [hq, Bool.not_true, Bool.false_or, Row.parts, Bool.or_eq_true, Bool.and_eq_true, Bool.and_eq_true] at hrow
  rcases hrow with ⟨hapart, hinner⟩ | ⟨hwithin, houter⟩
  · have hout := Class.not_contains_of_apart hapart hon
    exact ⟨fun _ => hinner, fun hin => (by rw [hin] at hout; cases hout)⟩
  · have hin := Class.contains_of_within hwithin hon
    exact ⟨fun hout => (by rw [hin] at hout; cases hout), fun _ => houter⟩

theorem method_parts :
    partsTable (· == 1) (byte 60 ++ byte 64) (fun _ arc => arc == ⟨2, [.mark], false⟩) (fun _ _ => true) = true ∧
      partsTable inMethod (byte 32) (fun _ arc => arc.actions.isEmpty && !arc.stops && inMethod arc.target)
        (fun _ arc => arc == ⟨3, [.requestMethod], false⟩) = true := by
  decide +kernel

theorem uri_parts : partsTable inUri (byte 32) (fun _ => uriArc inUri) (fun _ => uriArc (· == 4)) = true := by
  decide +kernel

theorem version_parts :
    partsTable (· == 4) (byte 72) (fun _ _ => false) (fun _ arc => arc == ⟨5, [.mark], false⟩) = true ∧
      partsTable isVersionState (byte 10 ++ byte 13) (fun q arc => q != 12 && arc == ⟨q + 1, [], false⟩)
        (fun q arc => q == 12 && arc.actions == [.httpVersion] && !arc.stops && inHeaders arc.target) = true := by
  decide +kernel

/-- Behind the request line no other method and no other version is read. -/
theorem headers_parts :
    partsTable inHeaders [] (fun _ arc => !arc.actions.contains .requestMethod && !arc.actions.contains .httpVersion &&
      (arc.stops || inHeaders arc.target)) (fun _ _ => true) = true := by
  decide +kernel

/-! ## What the tokens do -/

variable {text ys : Bytes} {p : Nat} {m : RequestMarks} {f : HttpRequest}

/-- A token that is not accepted stays so. -/
theorem run_none (q p : Nat) (bs : Bytes) : (run u text q p bs none).acc = none := by
  have hperform : ∀ as p, perform (readAct text) as p none = none := fun as p => by
    induction as with
    | nil => rfl
    | cons a as ih => exact ih
  induction bs generalizing q p with
  | nil => rfl
  | cons b bs ih =>
    cases harc : machine u q b with
    | none => exact congrArg Exit.acc (exec_of_none harc)
    | some arc =>
      cases hs : arc.stops with
      | true => exact (congrArg Exit.acc (exec_of_stops harc hs)).trans (hperform _ _)
      | false =>
        rw [run_step harc hs, hperform]
        exact ih _ _

theorem readAct_refused {a : Action} {t : Token Element} {r : Report Element}
    (ha : scanAct a p (m, []) = (m, [t])) (hr : t.seen (Cuts.of [text]) = r) (hacc : accepts r = false) :
    readAct text a p (some (m, f)) = none := by
  subst hr
  unfold readAct
  rw [Option.bind_some, ha]
  dsimp only
  rw [List.map_singleton, List.all_cons, List.all_nil, hacc]
  rfl

/-- No mark is behind the position. -/
def MarkedBelow (p : Nat) (m : RequestMarks) : Prop := m.mark ≤ p ∧ m.queryStart ≤ p

theorem readAct_uriAction {a : Action} (ha : a ∈ uriActions) (hp : p < text.length) (hm : MarkedBelow p m) :
    ∃ m' f', readAct text a p (some (m, f)) = some (m', f') ∧ MarkedBelow p m' ∧ f'.method = f.method := by
  have hpiece : ∀ i ≤ p, text.drop i = (text.drop i).take (p - i) ++ text.drop p ∧
      p = i + ((text.drop i).take (p - i)).length := fun i hi => by
    constructor
    · rw [← Nat.add_sub_cancel' hi, ← List.drop_drop, Nat.add_sub_cancel_left, List.take_append_drop]
    · rw [List.length_take, List.length_drop]
      omega
  obtain ⟨hmark, hquery⟩ := hm
  simp only [uriActions, List.mem_cons, List.not_mem_nil, or_false] at ha
  rcases ha with rfl | rfl | rfl | rfl | rfl | rfl
  · exact ⟨_, _, rfl, ⟨Nat.le_refl p, hquery⟩, rfl⟩
  · exact ⟨_, _, readAct_path (hpiece _ hmark).1 (hpiece _ hmark).2 hp, ⟨hmark, hquery⟩, rfl⟩
  · exact ⟨_, _, readAct_uri hp, ⟨hmark, hquery⟩, rfl⟩
  · exact ⟨_, _, readAct_fragment (hpiece _ hmark).1 (hpiece _ hmark).2 hp, ⟨hmark, hquery⟩, rfl⟩
  · exact ⟨_, _, rfl, ⟨hmark, Nat.le_refl p⟩, rfl⟩
  · exact ⟨_, _, readAct_query (hpiece _ hquery).1 (hpiece _ hquery).2 hp, ⟨hmark, hquery⟩, rfl⟩

theorem perform_uriActions {as : List Action} (has : as.all uriActions.contains = true) (hp : p < text.length)
    (hm : MarkedBelow p m) :
    ∃ m' f', perform (readAct text) as p (some (m, f)) = some (m', f') ∧ MarkedBelow p m' ∧
      f'.method = f.method := by
  induction as generalizing m f with
  | nil => exact ⟨m, f, rfl, hm, rfl⟩
  | cons a as ih =>
    rw [List.all_cons, Bool.and_eq_true, List.contains_iff_mem] at has
    obtain ⟨m₁, f₁, hact, hm₁, hf₁⟩ := readAct_uriAction (f := f) has.1 hp hm
    obtain ⟨m', f', hrest, hm', hf'⟩ := ih (f := f₁) has.2 hm₁
    refine ⟨m', f', ?_, hm', hf'.trans hf₁⟩
    rw [← hrest, ← hact]
    rfl

/-- Method and version of what has been read, if it has been accepted, are those of `f`. -/
def Keeps (f : HttpRequest) (s : Reading) : Prop :=
  ∀ m' f', s = some (m', f') → f'.method = f.method ∧ f'.version = f.version

theorem readAct_keeps {a : Action} (hmethod : a ≠ .requestMethod) (hversion : a ≠ .httpVersion) {s : Reading}
    (h : Keeps f s) : Keeps f (readAct text a p s) := by
  intro m' f' hs'
  obtain ⟨⟨m, f₁⟩, rfl, hact⟩ := Option.bind_eq_some_iff.mp hs'
  obtain ⟨hm, hv⟩ := h m f₁ rfl
  have hfill : ∀ rs : List (Report Element), (∀ r ∈ rs, methodOf r = none ∧ versionWritten r = none) →
      (fillAll rs f₁).method = f₁.method ∧ (fillAll rs f₁).version = f₁.version := fun rs hrs => by
    rw [fillAll_last (π := HttpRequest.method) (u := methodOf) (fun _ _ => rfl),
      fillAll_last (π := HttpRequest.version) (u := versionWritten) (fun _ _ => rfl),
      List.filterMap_eq_nil_iff.mpr fun r hr => (hrs r hr).1, List.filterMap_eq_nil_iff.mpr fun r hr => (hrs r hr).2]
    exact ⟨rfl, rfl⟩
  have hreports : ∀ r ∈ (scanAct a p (m, [])).2.map (Token.seen (Cuts.of [text])),
      methodOf r = none ∧ versionWritten r = none := by
    cases a with
    | requestMethod => exact absurd rfl hmethod
    | httpVersion => exact absurd rfl hversion
    | done =>
      unfold scanAct
      dsimp only
      split
      · nofun
      · exact fun r hr => List.mem_singleton.mp hr ▸ ⟨rfl, rfl⟩
    | writeValue | requestUri | fragment | queryString | requestPath =>
      exact fun r hr => List.mem_singleton.mp hr ▸ ⟨rfl, rfl⟩
    | mark | startField | writeField | startValue | startQuery | xml | json => nofun
  dsimp only at hact
  split at hact
  · cases hact
    obtain ⟨hm', hv'⟩ := hfill _ hreports
    exact ⟨hm'.trans hm, hv'.trans hv⟩
  · cases hact

theorem perform_keeps {as : List Action} (hmethod : as.contains .requestMethod = false)
    (hversion : as.contains .httpVersion = false) {s : Reading} (h : Keeps f s) :
    Keeps f (perform (readAct text) as p s) := by
  induction as generalizing s with
  | nil => exact h
  | cons a as ih =>
    rw [List.contains_cons, Bool.or_eq_false_iff, beq_eq_false_iff_ne] at hmethod hversion
    exact ih hmethod.2 hversion.2 (readAct_keeps (Ne.symm hmethod.1) (Ne.symm hversion.1) h)

/-! ## The pieces of a request line -/

theorem byte_contains_iff {n : Nat} : (byte n).contains u b = true ↔ b.toNat = n := by
  simp only [byte, Class.contains, Span.contains, List.any_cons, List.any_nil, Bool.or_false, Bool.not_false,
    Bool.true_or, Bool.and_true, Bool.and_eq_true, decide_eq_true_eq]
  omega

theorem byte_contains_eq_false {n : Nat} (h : b.toNat ≠ n) : (byte n).contains u b = false :=
  Bool.eq_false_iff.mpr fun hb => h (byte_contains_iff.mp hb)

theorem append_contains {c c' : Class} : (c ++ c').contains u b = (c.contains u b || c'.contains u b) :=
  List.any_append

/-- A byte of a method. -/
theorem method_step (hq : inMethod q = true) (hb : b ≠ 32) (harc : machine u q b = some arc) (s : Reading) :
    arc.stops = false ∧ inMethod arc.target = true ∧ perform (readAct text) arc.actions p s = s := by
  have hout : (byte 32).contains u b = false := byte_contains_eq_false fun h => hb (UInt8.toNat_inj.mp h)
  have hinner := (arc_of_parts method_parts.2 hq harc).1 hout
  simp only [Bool.and_eq_true, List.isEmpty_iff, Bool.not_eq_true'] at hinner
  obtain ⟨⟨hactions, hstops⟩, htarget⟩ := hinner
  rw [hactions]
  exact ⟨hstops, htarget, rfl⟩

/-- A byte of a URI. -/
theorem uri_step (hq : inUri q = true) (hb : b ≠ 32) (harc : machine u q b = some arc) (hp : p < text.length)
    (hm : MarkedBelow p m) :
    arc.stops = false ∧ inUri arc.target = true ∧ ∃ m' f', perform (readAct text) arc.actions p (some (m, f)) =
      some (m', f') ∧ MarkedBelow (p + 1) m' ∧ f'.method = f.method := by
  have hout : (byte 32).contains u b = false := byte_contains_eq_false fun h => hb (UInt8.toNat_inj.mp h)
  have hinner := (arc_of_parts uri_parts hq harc).1 hout
  simp only [uriArc, Bool.and_eq_true, Bool.not_eq_true'] at hinner
  obtain ⟨⟨hstops, hactions⟩, htarget⟩ := hinner
  obtain ⟨m', f', hperform, ⟨hmark, hquery⟩, hf'⟩ := perform_uriActions (f := f) hactions hp hm
  exact ⟨hstops, htarget, m', f', hperform, ⟨Nat.le_succ_of_le hmark, Nat.le_succ_of_le hquery⟩, hf'⟩

/-- A byte of a version: one state for each. -/
theorem version_step (hq : isVersionState q = true) (hb : b ≠ 10 ∧ b ≠ 13) (harc : machine u q b = some arc)
    (s : Reading) :
    arc.stops = false ∧ isVersionState arc.target = true ∧ arc.target = q + 1 ∧
      perform (readAct text) arc.actions p s = s := by
  have hout : (byte 10 ++ byte 13).contains u b = false := by
    rw [append_contains, byte_contains_eq_false (n := 10) fun h => hb.1 (UInt8.toNat_inj.mp h),
      byte_contains_eq_false (n := 13) fun h => hb.2 (UInt8.toNat_inj.mp h)]
    rfl
  have hinner := (arc_of_parts version_parts.2 hq harc).1 hout
  simp only [Bool.and_eq_true, bne_iff_ne, ne_eq, beq_iff_eq] at hinner
  obtain ⟨h12, rfl⟩ := hinner
  have hnext : isVersionState (q + 1) = true := by
    simp only [isVersionState, Bool.and_eq_true, decide_eq_true_eq] at hq ⊢
    omega
  exact ⟨rfl, hnext, rfl, rfl⟩

/-- **A method.** If the machine goes on and the token is accepted, the request has the method that is found for it. -/
theorem run_methodToken {method : Bytes} (htext : text = method ++ 32 :: ys) (h32 : 32 ∉ method)
    (hhttp : text.head? ≠ some 60 ∧ text.head? ≠ some 64)
    (hhalt : (run u text httpParserStart 0 text (some ({}, {}))).halt ≠ .error)
    (hacc : (run u text httpParserStart 0 text (some ({}, {}))).acc ≠ none) :
    string2HttpMethod method ≠ .invalidMethod ∧
      run u text httpParserStart 0 text (some ({}, {})) =
        run u text 3 (method.length + 1) ys (some ({}, { method := string2HttpMethod method })) := by
  have hstart : run u text httpParserStart 0 text (some ({}, {})) =
      run u text 1 0 (method ++ 32 :: ys) (some ({}, {})) := congrArg (fun bs => run u text 1 0 bs _) htext
  rw [hstart] at hhalt hacc ⊢
  cases method with
  | nil =>
    have hnone : machine u 1 32 = none := by cases u <;> decide +kernel
    exact absurd (congrArg Exit.halt (exec_of_none hnone)) hhalt
  | cons b rest =>
    rw [htext, List.cons_append, List.head?_cons] at hhttp
    -- the first byte
    have hfirst : machine u 1 b = some ⟨2, [.mark], false⟩ := by
      cases harc : machine u 1 b with
      | none => exact absurd (congrArg Exit.halt (exec_of_none harc)) hhalt
      | some arc =>
        have hb : (byte 60 ++ byte 64).contains u b = false := by
          rw [append_contains, byte_contains_eq_false, byte_contains_eq_false]
          · rfl
          · exact fun h => hhttp.2 (congrArg some (UInt8.toNat_inj.mp h))
          · exact fun h => hhttp.1 (congrArg some (UInt8.toNat_inj.mp h))
        rw [beq_iff_eq.mp ((arc_of_parts method_parts.1 rfl harc).1 hb)]
    have hstep : run u text 1 0 (b :: (rest ++ 32 :: ys)) (some ({}, {})) =
        run u text 2 1 (rest ++ 32 :: ys) (some ({}, {})) := run_step hfirst rfl _
    rw [List.cons_append, hstep] at hhalt hacc ⊢
    -- the others
    have hgoes : ∀ q p b arc (s : Reading), p < text.length → b ≠ 32 → machine u q b = some arc →
        inMethod q = true ∧ s = some ({}, {}) → arc.stops = false ∧ inMethod arc.target = true ∧
          perform (readAct text) arc.actions p s = some ({}, {}) := by
      rintro q p b arc s - hb harc ⟨hq, rfl⟩
      exact method_step hq hb harc _
    have hrest : ∀ b' ∈ rest, b' ≠ 32 := fun b' hb' =>
      ne_of_mem_of_not_mem (List.mem_cons_of_mem _ hb') h32
    have hlen : 1 + rest.length ≤ text.length := by
      rw [htext, List.length_append, List.length_cons]
      omega
    have hsecond : inMethod 2 = true ∧ (some ({}, {}) : Reading) = some ({}, {}) := ⟨rfl, rfl⟩
    rcases exec_until (M := machine u) (f := readAct text)
      (I := fun q _ s => inMethod q = true ∧ s = some ({}, {})) hgoes hrest hlen hsecond 32 ys with
      ⟨herr, -⟩ | ⟨q, s, arc, ⟨hq, rfl⟩, harc, hrun⟩
    · exact absurd herr hhalt
    · have hblank : (byte 32).contains u 32 = true := byte_contains_iff.mpr rfl
      obtain rfl := beq_iff_eq.mp ((arc_of_parts method_parts.2 hq harc).2 hblank)
      have hall : run u text 2 1 (rest ++ 32 :: ys) (some ({}, {})) =
          run u text 3 (1 + rest.length + 1) ys (readAct text .requestMethod (1 + rest.length) (some ({}, {}))) :=
        hrun.trans (run_step harc rfl ys)
      have hpiece : text.drop 0 = (b :: rest) ++ 32 :: ys := htext
      have hp : 1 + rest.length = 0 + (b :: rest).length := by rw [List.length_cons]; omega
      have hlt : 1 + rest.length < text.length := by
        rw [htext, List.length_append, List.length_cons, List.length_cons]
        omega
      have hvalid : string2HttpMethod (b :: rest) ≠ .invalidMethod := by
        intro hinvalid
        have harg := stringArg_piece hpiece hp
        have hrefused : readAct text .requestMethod (1 + rest.length) (some ({}, {})) = none :=
          readAct_refused rfl (seen_element hlt .requestMethod) (by
            simp only [element, accepts]
            rw [harg]
            simp [hinvalid])
        rw [hall, hrefused] at hacc
        exact hacc (run_none _ _ _)
      refine ⟨hvalid, hall.trans ?_⟩
      rw [readAct_method (m := {}) hpiece hp hlt hvalid, hp, Nat.zero_add]

/-- **A URI**, if the machine reads it. -/
theorem run_uriToken {uri : Bytes} (hdrop : text.drop p = uri ++ 32 :: ys) (h32 : 32 ∉ uri)
    (hm : MarkedBelow p m) :
    ((run u text 3 p (uri ++ 32 :: ys) (some (m, f))).halt = .error ∧ ¬ IsUri u uri) ∨
    ∃ m' f', run u text 3 p (uri ++ 32 :: ys) (some (m, f)) =
      run u text 4 (p + uri.length + 1) ys (some (m', f')) ∧ f'.method = f.method := by
  have hlt : p + uri.length < text.length := lt_length (drop_piece hdrop)
  have hgoes : ∀ q p' b arc (s : Reading), p' < p + uri.length → b ≠ 32 → machine u q b = some arc →
      (inUri q = true ∧ ∃ m' f', s = some (m', f') ∧ MarkedBelow p' m' ∧ f'.method = f.method) →
      arc.stops = false ∧ inUri arc.target = true ∧ ∃ m' f', perform (readAct text) arc.actions p' s =
        some (m', f') ∧ MarkedBelow (p' + 1) m' ∧ f'.method = f.method := by
    rintro q p' b arc s hp' hb harc ⟨hq, m₁, f₁, rfl, hm₁, hf₁⟩
    obtain ⟨hstops, htarget, m', f', hperform, hm', hf'⟩ :=
      uri_step (f := f₁) hq hb harc (Nat.lt_trans hp' hlt) hm₁
    exact ⟨hstops, htarget, m', f', hperform, hm', hf'.trans hf₁⟩
  have hstart : inUri 3 = true ∧ ∃ m' f', some (m, f) = some (m', f') ∧ MarkedBelow p m' ∧
      f'.method = f.method := ⟨rfl, m, f, rfl, hm, rfl⟩
  have hbytes : ∀ b ∈ uri, b ≠ 32 := fun b hb => ne_of_mem_of_not_mem hb h32
  rcases exec_until (M := machine u) (f := readAct text)
    (I := fun q p' s => inUri q = true ∧ ∃ m' f', s = some (m', f') ∧ MarkedBelow p' m' ∧ f'.method = f.method)
    hgoes hbytes (Nat.le_refl _) hstart 32 ys with
    ⟨herr, hwalk⟩ | ⟨q, s, arc, ⟨hq, m₁, f₁, rfl, hm₁, hf₁⟩, harc, hrun⟩
  · refine .inl ⟨herr, fun ⟨_, acts, hacts⟩ => ?_⟩
    rw [hwalk] at hacts
    cases hacts
  · have hblank : (byte 32).contains u 32 = true := byte_contains_iff.mpr rfl
    have houter := (arc_of_parts uri_parts hq harc).2 hblank
    simp only [uriArc, Bool.and_eq_true, Bool.not_eq_true', beq_iff_eq] at houter
    obtain ⟨⟨hstops, hactions⟩, htarget⟩ := houter
    obtain ⟨m', f', hperform, -, hf'⟩ := perform_uriActions (f := f₁) hactions hlt hm₁
    refine .inr ⟨m', f', ?_, hf'.trans hf₁⟩
    refine hrun.trans ((run_step harc hstops ys).trans ?_)
    rw [htarget, hperform]

/-- **A version**, if the machine goes on and the token is accepted. -/
theorem run_versionToken {version : Bytes} {c : UInt8} (hdrop : text.drop p = version ++ c :: ys)
    (hc : c = 10 ∨ c = 13) (hv : 10 ∉ version ∧ 13 ∉ version)
    (hhalt : (run u text 4 p (version ++ c :: ys) (some (m, f))).halt ≠ .error)
    (hacc : (run u text 4 p (version ++ c :: ys) (some (m, f))).acc ≠ none) :
    ∃ v q m', version = printedVersion v ∧ inHeaders q = true ∧
      run u text 4 p (version ++ c :: ys) (some (m, f)) =
        run u text q (p + version.length + 1) ys (some (m', { f with version := v })) := by
  have hfirst : ∀ b arc, machine u 4 b = some arc → arc = ⟨5, [.mark], false⟩ ∧ b.toNat = 72 := by
    intro b arc harc
    obtain ⟨hinner, houter⟩ := arc_of_parts version_parts.1 rfl harc
    cases hb : (byte 72).contains u b with
    | false => cases hinner hb
    | true => exact ⟨beq_iff_eq.mp (houter hb), byte_contains_iff.mp hb⟩
  cases version with
  | nil =>
    cases harc : machine u 4 c with
    | none => exact absurd (congrArg Exit.halt (exec_of_none harc)) hhalt
    | some arc =>
      obtain ⟨-, h72⟩ := hfirst c arc harc
      rcases hc with rfl | rfl <;> cases h72
  | cons b rest =>
    have hstep : run u text 4 p (b :: (rest ++ c :: ys)) (some (m, f)) =
        run u text 5 (p + 1) (rest ++ c :: ys) (some ({ m with mark := p }, f)) := by
      cases harc : machine u 4 b with
      | none => exact absurd (congrArg Exit.halt (exec_of_none harc)) hhalt
      | some arc =>
        obtain ⟨rfl, -⟩ := hfirst b arc harc
        exact run_step harc rfl _
    rw [List.cons_append, hstep] at hhalt hacc ⊢
    -- one state for each byte
    have hgoes : ∀ q p' b arc (s : Reading), p' < text.length → (b ≠ 10 ∧ b ≠ 13) → machine u q b = some arc →
        (isVersionState q = true ∧ p' + 4 = p + q ∧ s = some ({ m with mark := p }, f)) →
        arc.stops = false ∧ isVersionState arc.target = true ∧ p' + 1 + 4 = p + arc.target ∧
          perform (readAct text) arc.actions p' s = some ({ m with mark := p }, f) := by
      rintro q p' b arc s - hb harc ⟨hq, hp', rfl⟩
      obtain ⟨hstops, hstate, htarget, hperform⟩ := version_step hq hb harc (some ({ m with mark := p }, f))
      exact ⟨hstops, hstate, by omega, hperform⟩
    have hbytes : ∀ b' ∈ rest, b' ≠ 10 ∧ b' ≠ 13 := fun b' hb' =>
      ⟨ne_of_mem_of_not_mem (List.mem_cons_of_mem _ hb') hv.1,
        ne_of_mem_of_not_mem (List.mem_cons_of_mem _ hb') hv.2⟩
    have hlt : p + (b :: rest).length < text.length := lt_length (drop_piece hdrop)
    rw [List.length_cons] at hlt
    have hstart : isVersionState 5 = true ∧ p + 1 + 4 = p + 5 ∧
        (some ({ m with mark := p }, f) : Reading) = some ({ m with mark := p }, f) := ⟨rfl, by omega, rfl⟩
    rcases exec_until (M := machine u) (f := readAct text)
      (I := fun q p' s => isVersionState q = true ∧ p' + 4 = p + q ∧ s = some ({ m with mark := p }, f))
      hgoes hbytes (by omega) hstart c ys with
      ⟨herr, -⟩ | ⟨q, s, arc, ⟨hq, hp', rfl⟩, harc, hrun⟩
    · exact absurd herr hhalt
    · have hend : (byte 10 ++ byte 13).contains u c = true := by
        rw [append_contains, Bool.or_eq_true]
        exact hc.imp (fun h => byte_contains_iff.mpr (congrArg _ h)) fun h => byte_contains_iff.mpr (congrArg _ h)
      have houter := (arc_of_parts version_parts.2 hq harc).2 hend
      simp only [Bool.and_eq_true, Bool.not_eq_true', beq_iff_eq] at houter
      obtain ⟨⟨⟨rfl, hactions⟩, hstops⟩, htarget⟩ := houter
      have hlength : (b :: rest).length = 8 := by
        rw [List.length_cons]
        omega
      have hlast : p + 1 + rest.length = p + 8 := by omega
      have hall : run u text 5 (p + 1) (rest ++ c :: ys) (some ({ m with mark := p }, f)) =
          run u text arc.target (p + 8 + 1) ys
            (readAct text .httpVersion (p + 8) (some ({ m with mark := p }, f))) := by
        refine hrun.trans ((run_step harc hstops ys).trans ?_)
        rw [hactions, hlast]
        rfl
      have hlt' : p + 8 < text.length := by omega
      have hlen : len p (p + 8) = 8 := by rw [len_of_le (Nat.le_add_right _ _), Nat.add_sub_cancel_left]
      cases hversion : versionOf ((b :: rest) ++ c :: ys) 8 with
      | none =>
        have hrefused : readAct text .httpVersion (p + 8) (some ({ m with mark := p }, f)) = none :=
          readAct_refused rfl (seen_element hlt' .httpVersion) (by
            show (versionOf (text.drop p) (len p (p + 8))).isSome = false
            rw [hdrop, hlen, hversion]
            rfl)
        rw [hall, hrefused] at hacc
        exact absurd (run_none _ _ _) hacc
      | some v =>
        have hname : b :: rest = printedVersion v := by
          rcases eq_of_versionOf hlength hversion with ⟨h, rfl⟩ | ⟨h, rfl⟩ <;> exact h
        refine ⟨v, arc.target, { m with mark := p }, hname, htarget, ?_⟩
        have hread : versionOf (text.drop p) (len p (p + 8)) = some v := by rw [hdrop, hlen, hversion]
        rw [hall, readAct_version (m := { m with mark := p }) hlt' hread, hlength]

/-- What follows does not change them. -/
theorem run_keeps (hq : inHeaders q = true) (hhalt : (run u text q p ys (some (m, f))).halt ≠ .error) :
    Keeps f (run u text q p ys (some (m, f))).acc := by
  have hstep : ∀ {q b arc} {s : Reading} {p : Nat}, machine u q b = some arc → inHeaders q = true ∧ Keeps f s →
      (arc.stops = true ∨ inHeaders arc.target = true) ∧ Keeps f (perform (readAct text) arc.actions p s) := by
    rintro q b arc s p harc ⟨hq, hs⟩
    have hinner := (arc_of_parts headers_parts hq harc).1 rfl
    simp only [Bool.and_eq_true, Bool.or_eq_true, Bool.not_eq_true'] at hinner
    exact ⟨hinner.2, perform_keeps hinner.1.1 hinner.1.2 hs⟩
  have hstart : inHeaders q = true ∧ Keeps f (some (m, f)) :=
    ⟨hq, fun _ _ h => by cases h; exact ⟨rfl, rfl⟩⟩
  generalize he : run u text q p ys (some (m, f)) = e at hhalt ⊢
  have hrule := exec_rule (M := machine u) (f := readAct text) (p := p)
    (I := fun q _ s => inHeaders q = true ∧ Keeps f s) (J := fun _ _ s => Keeps f s)
    (fun _ _ _ _ _ harc hgoes h =>
      ⟨(hstep (p := 0) harc h).1.resolve_left (by rw [hgoes]; exact Bool.false_ne_true), (hstep harc h).2⟩)
    (fun _ _ _ _ _ harc _ h => (hstep harc h).2) (l := []) hstart he
  cases hend : e.halt with
  | error => exact absurd hend hhalt
  | input => exact (hrule.1 hend).2
  | stop => exact hrule.2 hend

/-! ## The parser -/

section

variable {env : Env} {data : Bytes} {line : RequestLine} {request : HttpRequest}

/-- One call for the whole request follows the scan. -/
theorem execute_whole (env : Env) (hne : data ≠ []) :
    ∃ parser : HttpParser, (HttpRequestParser.new env).execute data =
        (onReports ((tokens env.uriRelaxed data).map (Token.seen (Cuts.of [data]))) ({}, .ok)).map (fun x =>
          (⟨parser, x.1, x.2⟩, data.drop (scan env.uriRelaxed data).pos, (scan env.uriRelaxed data).pos)) ∧
      ((scan env.uriRelaxed data).halt = .error → parser.hasError = true) ∧
      ((scan env.uriRelaxed data).halt = .input → parser.hasError = false) := by
  have hcovers : (Cuts.of [data]).Covers 0 data := Cuts.covers_of [] data []
  have hscan : scanFrom (httpParserInit env.uriRelaxed env.queryStart).uriRelaxed httpParserStart 0 data {} =
      scan env.uriRelaxed data := rfl
  obtain ⟨parser, hexec, hcs, -, -, -, hresumes⟩ := execute_follows hcovers hne
    (resumes_init (Cuts.of [data]) env.uriRelaxed env.queryStart) hscan
  refine ⟨parser, ?_, fun herr => ?_, fun hinput => ?_⟩
  · rw [HttpRequestParser.execute, HttpRequestParser.new, hexec, Option.bind_eq_bind, Option.bind_some]
    dsimp only
    rw [Nat.sub_zero]
    show (onReports ((tokens env.uriRelaxed data).map (Token.seen (Cuts.of [data]))) ({}, .ok)).bind _ = _
    rw [Option.map_eq_bind]
    rfl
  · rw [HttpParser.hasError, hcs, if_pos herr]
    rfl
  · have hne0 := (hresumes hinput).cs_ne
    rw [HttpParser.hasError, (hresumes hinput).cs]
    exact beq_eq_false_iff_ne.mpr hne0

/-- The run of a request on which the parser finishes without an error. -/
theorem run_of_finishes (h : Finishes env data request) :
    (run env.uriRelaxed data httpParserStart 0 data (some ({}, {}))).halt ≠ .error ∧
      ∃ m, (run env.uriRelaxed data httpParserStart 0 data (some ({}, {}))).acc = some (m, request) := by
  obtain ⟨p, rest, offset, hexec, hfinished, hok, rfl⟩ := h
  have hne : data ≠ [] := by
    rintro rfl
    have hnone : (HttpRequestParser.new env).execute [] = some (.new env, [], 0) := rfl
    rw [hnone] at hexec
    cases hexec
    cases hfinished
  obtain ⟨hhalt, -, hacc⟩ := run_of_scan env.uriRelaxed data
  obtain ⟨parser, heq, herror, -⟩ := execute_whole env hne
  rw [heq] at hexec
  obtain ⟨x, hreports, hx⟩ := Option.map_eq_some_iff.mp hexec
  cases hx
  refine ⟨fun herr => ?_, (scan env.uriRelaxed data).acc.1, ?_⟩
  · have herr' := herror (hhalt ▸ herr)
    simp only [HttpRequestParser.isFinished, httpParserFinish, herr', if_true] at hfinished
    cases hfinished
  · have haccepts := callbacks.accepts_of_all hreports hok
    have hall : onReports _ ({}, .ok) = some (fillAll _ {}, .ok) := callbacks.all_of_accepts haccepts
    rw [hall] at hreports
    cases hreports
    rw [hacc, readingOf]
    exact if_pos (List.all_eq_true.mpr haccepts)

/-- **What is taken of the request line.** -/
theorem members_of_run {u : Bool} (hb : line.Begins data)
    (hhalt : (run u data httpParserStart 0 data (some ({}, {}))).halt ≠ .error) {m : RequestMarks}
    (hacc : (run u data httpParserStart 0 data (some ({}, {}))).acc = some (m, request)) :
    string2HttpMethod line.method ≠ .invalidMethod ∧ request.method = string2HttpMethod line.method ∧
      printedVersion request.version = line.version := by
  obtain ⟨rest, hrest⟩ := hb.text
  obtain ⟨c, tail, hcrlf, hc⟩ : ∃ c tail, line.crlf = c :: tail ∧ (c = 10 ∨ c = 13) := by
    have hmem := hb.crlf
    simp only [lineEnds, List.mem_cons, List.not_mem_nil, or_false] at hmem
    rcases hmem with h | h
    · exact ⟨13, [10], h, .inr rfl⟩
    · exact ⟨10, [], h, .inl rfl⟩
  have hdata : data = line.method ++ 32 :: (line.uri ++ 32 :: (line.version ++ c :: (tail ++ rest))) := by
    rw [← hrest, RequestLine.text, hcrlf]
    simp
  obtain ⟨hvalid, hmethod⟩ := run_methodToken hdata hb.method hb.http hhalt (hacc ▸ nofun)
  rw [hmethod] at hhalt hacc
  have hdropUri : data.drop (line.method.length + 1) =
      line.uri ++ 32 :: (line.version ++ c :: (tail ++ rest)) := by
    rw [hdata, ← List.drop_drop, List.drop_left]
    rfl
  rcases run_uriToken (f := { method := string2HttpMethod line.method }) hdropUri hb.uri
    (m := {}) ⟨Nat.zero_le _, Nat.zero_le _⟩ with ⟨herr, -⟩ | ⟨m₁, f₁, huri, hf₁⟩
  · exact absurd herr hhalt
  rw [huri] at hhalt hacc
  have hdropVersion : data.drop (line.method.length + 1 + line.uri.length + 1) =
      line.version ++ c :: (tail ++ rest) := by
    rw [← List.drop_drop, drop_piece hdropUri]
    rfl
  obtain ⟨v, q, m₂, hv, hq, hversion⟩ := run_versionToken hdropVersion hc hb.version hhalt (hacc ▸ nofun)
  rw [hversion] at hhalt hacc
  obtain ⟨hkept, hkept'⟩ := run_keeps hq hhalt m request hacc
  refine ⟨hvalid, hkept.trans hf₁, ?_⟩
  rw [hkept', hv]

/-! ## Names -/

theorem name_of_valid {k : HttpMethod} (hk : k ≠ .invalidMethod) : httpMethod2String k ∈ methodNames := by
  cases k <;> first | decide | contradiction

/-- The entry found for a name is its own: no name begins an earlier one. -/
theorem string2HttpMethod_name :
    ∀ name ∈ methodNames, httpMethod2String (string2HttpMethod name) = name ∧
      string2HttpMethod name ≠ .invalidMethod := by
  decide +kernel

/-- **The method is the one of the request line** if it is spelled out. -/
theorem taken_iff (h : Finishes env data request) (hb : line.Begins data) :
    line.Taken request ↔ line.method ∈ methodNames := by
  obtain ⟨hhalt, m, hacc⟩ := run_of_finishes h
  obtain ⟨hvalid, hmethod, hversion⟩ := members_of_run hb hhalt hacc
  rw [RequestLine.Taken, hmethod]
  constructor
  · rintro ⟨hname, -⟩
    exact hname ▸ name_of_valid hvalid
  · exact fun hmem => ⟨(string2HttpMethod_name _ hmem).1, hversion⟩

theorem length_printedVersion (v : HttpVersion) : (printedVersion v).length = 8 := by cases v <;> rfl

/-- The version and the end of the line. -/
theorem version_walk (u : Bool) (v : HttpVersion) {crlf : Bytes} (hcrlf : crlf ∈ lineEnds) :
    (machine u).walk 4 0 (printedVersion v ++ crlf) = some (13, [(.mark, 0), (.httpVersion, 8)]) := by
  simp only [lineEnds, List.mem_cons, List.not_mem_nil, or_false] at hcrlf
  rcases hcrlf with rfl | rfl <;> cases u <;> cases v <;> decide +kernel

/-- The run over a request line. -/
theorem run_of_known {u : Bool} (hline : line.Known u) (hmsearch : line.method ≠ ascii "M-SEARCH") :
    (run u line.text httpParserStart 0 line.text (some ({}, {}))).halt = .input ∧
      ∃ x, (run u line.text httpParserStart 0 line.text (some ({}, {}))).acc = some x := by
  obtain ⟨hname, hvalid⟩ := string2HttpMethod_name _ hline.method
  have hm : string2HttpMethod line.method ≠ .msearch ∧ string2HttpMethod line.method ≠ .invalidMethod := by
    refine ⟨fun h => hmsearch ?_, hvalid⟩
    rw [← hname, h]
    decide
  obtain ⟨v, hv⟩ : ∃ v, line.version = printedVersion v := by
    have hmem := hline.version
    simp only [versionNames, List.mem_cons, List.not_mem_nil, or_false] at hmem
    exact hmem.elim (fun h => ⟨.http10, h⟩) fun h => ⟨.http11, h⟩
  have htext : line.text = httpMethod2String (string2HttpMethod line.method) ++
      32 :: (line.uri ++ 32 :: (printedVersion v ++ line.crlf)) := by
    rw [RequestLine.text, hname, hv]
  have hmethod := run_method (u := u) hm htext
  rw [hname] at htext hmethod
  have hdropUri : line.text.drop (line.method.length + 1) =
      line.uri ++ 32 :: (printedVersion v ++ line.crlf) := by
    rw [htext, ← List.drop_drop, List.drop_left]
    rfl
  rcases run_uriToken (u := u) (f := { method := string2HttpMethod line.method }) hdropUri
    hline.uri.1 (m := {}) ⟨Nat.zero_le _, Nat.zero_le _⟩ with ⟨-, hno⟩ | ⟨m₁, f₁, huri, -⟩
  · exact absurd hline.uri hno
  have hdropVersion : line.text.drop (line.method.length + 1 + line.uri.length + 1) =
      printedVersion v ++ line.crlf := by
    rw [← List.drop_drop, drop_piece hdropUri]
    rfl
  generalize line.method.length + 1 + line.uri.length + 1 = p at huri hdropVersion
  have hlt : p + 8 < line.text.length := by
    have hpos : 0 < line.crlf.length := by
      have hmem := hline.crlf
      simp only [lineEnds, List.mem_cons, List.not_mem_nil, or_false] at hmem
      rcases hmem with h | h <;> simp [h]
    have hlength := congrArg List.length hdropVersion
    rw [List.length_drop, List.length_append, length_printedVersion] at hlength
    omega
  have hread : versionOf (line.text.drop p) (len p (p + 8)) = some v := by
    rw [hdropVersion, len_of_le (Nat.le_add_right _ _), Nat.add_sub_cancel_left]
    cases v <;> rfl
  have hmark : readAct line.text .mark p (some (m₁, f₁)) = some ({ m₁ with mark := p }, f₁) := rfl
  have hwalk := exec_of_walk (f := readAct line.text) (version_walk u v hline.crlf) p [] (some (m₁, f₁))
  rw [List.append_nil, List.foldl_cons, List.foldl_cons, List.foldl_nil, Nat.add_zero, hmark,
    readAct_version (m := { m₁ with mark := p }) hlt hread] at hwalk
  have hall := hmethod.trans (huri.trans hwalk)
  exact ⟨congrArg Exit.halt hall, _, congrArg Exit.acc hall⟩

/-- **A request line is read** unless the method is `M-SEARCH`. -/
theorem accepted_iff (hline : line.Known env.uriRelaxed) :
    line.Accepted env ↔ line.method ≠ ascii "M-SEARCH" := by
  have hne : line.text ≠ [] := fun h => by
    have := congrArg List.length h
    simp only [RequestLine.text, List.length_append, List.length_cons, List.length_nil] at this
    omega
  obtain ⟨parser, heq, herror, hnoError⟩ := execute_whole env hne
  constructor
  · rintro ⟨p, offset, hexec, hno⟩ hmsearch
    have htext : line.text = httpMethod2String .msearch ++
        32 :: (line.uri ++ 32 :: (line.version ++ line.crlf)) := by
      rw [RequestLine.text, hmsearch]
      rfl
    have herr := herror (scan_error_of_msearch htext)
    rw [heq] at hexec
    obtain ⟨x, -, hx⟩ := Option.map_eq_some_iff.mp hexec
    obtain rfl := (Prod.ext_iff.mp hx).1
    simp [HttpRequestParser.hasError, herr] at hno
  · intro hmsearch
    obtain ⟨hinput, x, hacc⟩ := run_of_known hline hmsearch
    obtain ⟨hhalt, -, hreading⟩ := run_of_scan env.uriRelaxed line.text
    rw [hhalt] at hinput
    have hend : (scan env.uriRelaxed line.text).pos = line.text.length := by
      have := (exec_pos (machine env.uriRelaxed) scanAct httpParserStart 0 line.text ({}, [])).2.2 hinput
      rwa [Nat.zero_add] at this
    have haccepts : ∀ r ∈ (tokens env.uriRelaxed line.text).map (Token.seen (Cuts.of [line.text])),
        accepts r = true := by
      rw [hreading, readingOf] at hacc
      split at hacc
      · next hacc' => exact List.all_eq_true.mp hacc'
      · cases hacc
    have hreports : onReports _ ({}, .ok) = some (fillAll _ {}, .ok) := callbacks.all_of_accepts haccepts
    rw [hreports, hend, List.drop_length] at heq
    refine ⟨_, _, heq, ?_⟩
    simp [HttpRequestParser.hasError, hnoError hinput]

end

/-! ## All request lines -/

/-- **Method and version of requests.** -/
theorem methodTaken_iff (env : Env) :
    (∀ data request line, Finishes env data request → RequestLine.Begins line data →
      (line.Taken request ↔ line.method ∈ methodNames)) ∧
    ∀ line : RequestLine, line.Known env.uriRelaxed → (line.Accepted env ↔ line.method ≠ ascii "M-SEARCH") :=
  ⟨fun _ _ _ h hb => taken_iff h hb, fun _ h => accepted_iff h⟩

theorem exists_finishes {env : Env} {data : Bytes}
    (h : ((HttpRequestParser.new env).execute data).any (fun x => x.1.isFinished == 1 && x.1.error == .ok) = true) :
    ∃ request, Finishes env data request := by
  obtain ⟨⟨p, rest, offset⟩, hexec, hp⟩ := (Option.any_eq_true _ _).mp h
  rw [Bool.and_eq_true, beq_iff_eq, beq_iff_eq] at hp
  exact ⟨p.request, p, rest, offset, hexec, hp.1, hp.2, rfl⟩

/-- A request line for the path `/`. -/
def lineOf (method : Bytes) : RequestLine where
  method := method
  uri := ascii "/"
  version := ascii "HTTP/1.1"
  crlf := ascii "\r\n"

theorem taken_get :
    (∃ request, Finishes plainEnv ((lineOf (ascii "GET")).text ++ ascii "\r\n") request ∧
      (lineOf (ascii "GET")).Taken request) ∧ (lineOf (ascii "GET")).Accepted plainEnv := by
  obtain ⟨htaken, haccepted⟩ := methodTaken_iff plainEnv
  obtain ⟨request, h⟩ : ∃ request, Finishes plainEnv ((lineOf (ascii "GET")).text ++ ascii "\r\n") request :=
    exists_finishes (by decide +kernel)
  refine ⟨⟨request, h, (htaken _ _ _ h ?_).mpr (by decide)⟩, (haccepted _ ?_).mpr (by decide)⟩
  · exact ⟨List.prefix_append _ _, by decide, by decide, by decide, by decide, by decide⟩
  · exact ⟨by decide, ⟨by decide, [(.mark, 0), (.requestPath, 1), (.requestUri, 1)], by decide +kernel⟩, by decide,
      by decide⟩

/-- The method is always the one of the request line, and every method of the map is accepted. -/
def MethodsTaken : Prop :=
  ∀ env,
    (∀ data request line, Finishes env data request → RequestLine.Begins line data → line.Taken request) ∧
    ∀ line : RequestLine, line.Known env.uriRelaxed → line.Accepted env

/-- `G` is taken for `GET`. -/
theorem not_methodsTaken : ¬ MethodsTaken := by
  intro hclaim
  obtain ⟨request, h⟩ : ∃ request, Finishes plainEnv ((lineOf (ascii "G")).text ++ ascii "\r\n") request :=
    exists_finishes (by decide +kernel)
  have hb : (lineOf (ascii "G")).Begins ((lineOf (ascii "G")).text ++ ascii "\r\n") :=
    ⟨List.prefix_append _ _, by decide, by decide, by decide, by decide, by decide⟩
  exact absurd ((taken_iff h hb).mp ((hclaim plainEnv).1 _ _ _ h hb)) (by decide)

end Nemo.Http
