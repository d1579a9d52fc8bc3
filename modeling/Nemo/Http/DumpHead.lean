import Nemo.Http.DumpScan
import Nemo.Http.KeepAlive

/-!
# The head of a printed request

Behind the URI a printed request has the version, its header lines, and an empty line. `run_head` puts
the pieces together: the machine stops behind the empty line, with the members of the request.
-/

namespace Nemo.Http

open Infra Automaton

variable {u : Bool} {text body : Bytes} {p : Nat} {m : RequestMarks} {f : HttpRequest}

/-! ## The version -/

def printedVersion : HttpVersion → Bytes
  | .http10 => [72, 84, 84, 80, 47, 49, 46, 48]
  | .http11 => [72, 84, 84, 80, 47, 49, 46, 49]

theorem version_goes :
    (byte 72).goes table 4 (· == ⟨5, [.mark], false⟩) = true ∧
      (byte 84).goes table 5 (· == ⟨6, [], false⟩) = true ∧
      (byte 84).goes table 6 (· == ⟨7, [], false⟩) = true ∧
      (byte 80).goes table 7 (· == ⟨8, [], false⟩) = true ∧
      (byte 47).goes table 8 (· == ⟨9, [], false⟩) = true ∧
      (byte 49).goes table 9 (· == ⟨10, [], false⟩) = true ∧
      (byte 46).goes table 10 (· == ⟨11, [], false⟩) = true ∧
      (byte 48).goes table 11 (· == ⟨12, [], false⟩) = true ∧
      (byte 49).goes table 11 (· == ⟨12, [], false⟩) = true ∧
      (byte 13).goes table 12 (· == ⟨17, [.httpVersion], false⟩) = true ∧
      (byte 10).goes table 17 (· == ⟨13, [], false⟩) = true := by
  decide +kernel

/-- **A version** and the line end behind it. -/
theorem run_version (version : HttpVersion) {ys : Bytes}
    (hdrop : text.drop p = printedVersion version ++ 13 :: 10 :: ys) :
    run u text 4 p (printedVersion version ++ 13 :: 10 :: ys) (some (m, f)) =
      run u text 13 (p + 10) ys (some ({ m with mark := p }, { f with version := version })) := by
  obtain ⟨h4, h5, h6, h7, h8, h9, h10, h11, h11', h12, h17⟩ := version_goes
  have hlt : p + 8 < text.length := by
    have hcr := @lt_length text (p + (printedVersion version).length) 13 (10 :: ys) (drop_piece hdrop)
    cases version <;> exact hcr
  have hread : readAct text .httpVersion (p + 8) (some ({ m with mark := p }, f)) =
      some ({ m with mark := p }, { f with version := version }) := by
    refine readAct_version (m := { m with mark := p }) hlt ?_
    show versionOf (text.drop p) (len p (p + 8)) = some version
    rw [hdrop, len_of_le (Nat.le_add_right _ _), Nat.add_sub_cancel_left]
    cases version <;> rfl
  have hend : run u text 12 (p + 8) (13 :: 10 :: ys) (some ({ m with mark := p }, f)) =
      run u text 13 (p + 10) ys (some ({ m with mark := p }, { f with version := version })) :=
    (run_byte h12 rfl (by decide) (10 :: ys)).trans
      ((run_byte h17 rfl (by decide) ys).trans (congrArg _ hread))
  have hbegin : ∀ zs, run u text 4 p (72 :: 84 :: 84 :: 80 :: 47 :: 49 :: 46 :: zs) (some (m, f)) =
      run u text 11 (p + 7) zs (some ({ m with mark := p }, f)) := by
    intro zs
    refine (run_byte h4 rfl (by decide) _).trans ?_
    refine (run_byte h5 rfl (by decide) _).trans ?_
    refine (run_byte h6 rfl (by decide) _).trans ?_
    refine (run_byte h7 rfl (by decide) _).trans ?_
    refine (run_byte h8 rfl (by decide) _).trans ?_
    refine (run_byte h9 rfl (by decide) _).trans ?_
    exact run_byte h10 rfl (by decide) _
  cases version with
  | http10 => exact (hbegin (48 :: 13 :: 10 :: ys)).trans ((run_byte h11 rfl (by decide) _).trans hend)
  | http11 => exact (hbegin (49 :: 13 :: 10 :: ys)).trans ((run_byte h11' rfl (by decide) _).trans hend)

/-! ## Header lines -/

/-- The bytes of values, and those that begin one. -/
def valueChar : Class := bytes 32 126 ++ bytes 128 255
def valueStart : Class := bytes 33 126 ++ bytes 128 255

/-- A line that can be read back: a token, and a value without control bytes and a leading blank. -/
def IsLine (u : Bool) (line : Bytes × Bytes) : Prop :=
  (line.1 ≠ [] ∧ ∀ b ∈ line.1, tokenChar.contains u b = true) ∧
    (∀ b ∈ line.2, isControl b = false) ∧ line.2.head? ≠ some 32

theorem valueChar_of_not_control {b : UInt8} (h : isControl b = false) :
    valueChar.contains u b = true ∧ (b ≠ 32 → valueStart.contains u b = true) := by
  have hb := b.toNat_lt
  have h32 : b ≠ 32 → b.toNat ≠ 32 := fun hne heq => hne (UInt8.toNat_inj.mp heq)
  simp only [isControl, Bool.or_eq_false_iff, decide_eq_false_iff_not, beq_eq_false_iff_ne] at h
  constructor
  · simp only [valueChar, bytes, Class.contains, Span.contains, List.cons_append, List.nil_append,
      List.any_cons, List.any_nil, Bool.or_false, Bool.not_false, Bool.true_or, Bool.and_true,
      Bool.or_eq_true, Bool.and_eq_true, decide_eq_true_eq]
    omega
  · intro hne
    have := h32 hne
    simp only [valueStart, bytes, Class.contains, Span.contains, List.cons_append, List.nil_append,
      List.any_cons, List.any_nil, Bool.or_false, Bool.not_false, Bool.true_or, Bool.and_true,
      Bool.or_eq_true, Bool.and_eq_true, decide_eq_true_eq]
    omega

theorem line_goes :
    tokenChar.goes table 13 (· == ⟨14, [.startField], false⟩) = true ∧
      tokenChar.goes table 14 (silent [14]) = true ∧
      (byte 58).goes table 14 (· == ⟨15, [.writeField], false⟩) = true ∧
      (byte 32).goes table 15 (· == ⟨15, [.startValue], false⟩) = true ∧
      valueStart.goes table 15 (· == ⟨16, [.startValue], false⟩) = true ∧
      valueChar.goes table 16 (silent [16]) = true ∧
      (byte 13).goes table 15 (· == ⟨17, [.startValue, .writeValue], false⟩) = true ∧
      (byte 13).goes table 16 (· == ⟨17, [.writeValue], false⟩) = true ∧
      (byte 10).goes table 17 (· == ⟨13, [], false⟩) = true := by
  decide +kernel

/-- A name and the colon behind it. -/
theorem run_name {name : Bytes} (hne : name ≠ []) (hname : ∀ b ∈ name, tokenChar.contains u b = true)
    (ys : Bytes) :
    run u text 13 p (name ++ 58 :: ys) (some (m, f)) =
      run u text 15 (p + name.length + 1) ys
        (some ({ m with fieldStart := p, nameStart := p, colon := p + name.length }, f)) := by
  obtain ⟨h13, h14, hcolon, -⟩ := line_goes
  cases name with
  | nil => exact absurd rfl hne
  | cons b rest =>
    refine (run_step (Class.arc_eq h13 (hname b List.mem_cons_self)) rfl _).trans ?_
    refine (run_bytes h14 (fun b' hb' => hname b' (List.mem_cons_of_mem _ hb')) _ _).trans ?_
    refine (run_byte hcolon rfl (by decide) ys).trans ?_
    rw [List.length_cons, Nat.add_right_comm p 1]
    rfl

/-- A value and the line end behind it. -/
theorem run_value {value : Bytes} (hvalue : ∀ b ∈ value, isControl b = false)
    (hblank : value.head? ≠ some 32) {name rest ys : Bytes}
    (hname : text.drop m.nameStart = name ++ rest) (hcolon : m.colon = m.nameStart + name.length)
    (hne : name ≠ []) (hdrop : text.drop p = value ++ 13 :: 10 :: ys) :
    run u text 15 p (value ++ 13 :: 10 :: ys) (some (m, f)) =
      run u text 13 (p + value.length + 2) ys
        (some ({ m with mark := p }, { f with headers := f.headers.setHeader name value })) := by
  obtain ⟨-, -, -, -, h15, h16, hcr, hcr', hlf⟩ := line_goes
  have hread := @readAct_field text (p + value.length) { m with mark := p } f name value rest
    (13 :: 10 :: ys) hname hcolon hne hdrop rfl (lt_length (drop_piece hdrop))
  cases value with
  | nil =>
    refine (run_byte hcr rfl (by decide) (10 :: ys)).trans ?_
    refine (run_byte hlf rfl (by decide) ys).trans ?_
    exact congrArg _ hread
  | cons b value =>
    have hb := valueChar_of_not_control (u := u) (hvalue b List.mem_cons_self)
    have hstart := hb.2 fun h => hblank (by rw [h]; rfl)
    refine (run_step (Class.arc_eq h15 hstart) rfl (value ++ 13 :: 10 :: ys)).trans ?_
    refine (run_bytes h16 (fun b' hb' =>
      (valueChar_of_not_control (hvalue b' (List.mem_cons_of_mem _ hb'))).1) _ _).trans ?_
    refine (run_byte hcr' rfl (by decide) (10 :: ys)).trans ?_
    refine (run_byte hlf rfl (by decide) ys).trans ?_
    rw [List.length_cons] at hread ⊢
    rw [Nat.add_right_comm p 1, Nat.add_assoc p] at *
    exact congrArg _ hread

/-- **A header line** sets its header. -/
theorem run_line {line : Bytes × Bytes} (hline : IsLine u line) {ys : Bytes}
    (hdrop : text.drop p = headerLine line.1 line.2 ++ ys) :
    ∃ m', m'.sent = m.sent ∧ run u text 13 p (headerLine line.1 line.2 ++ ys) (some (m, f)) =
      run u text 13 (p + (headerLine line.1 line.2).length) ys
        (some (m', { f with headers := f.headers.setHeader line.1 line.2 })) := by
  obtain ⟨name, value⟩ := line
  obtain ⟨⟨hne, hname⟩, hvalue, hblank⟩ := hline
  have hsplit : headerLine name value ++ ys = name ++ 58 :: 32 :: (value ++ 13 :: 10 :: ys) := by
    have hblank : ascii ": " = [58, 32] := rfl
    have hend : ascii "\r\n" = [13, 10] := rfl
    simp [headerLine, hblank, hend]
  have hlength : (headerLine name value).length = name.length + 2 + (value.length + 2) := by
    have hlen := congrArg List.length hsplit
    simp only [List.length_append, List.length_cons] at hlen
    omega
  dsimp only at hdrop hne hname hvalue hblank ⊢
  rw [hsplit] at hdrop ⊢
  obtain ⟨-, -, -, hspace, -⟩ := line_goes
  have hdropValue : text.drop (p + name.length + 2) = value ++ 13 :: 10 :: ys :=
    @drop_piece text (p + name.length) [58, 32] _ (drop_piece hdrop)
  have hread := @run_value u text (p + name.length + 2)
    { m with fieldStart := p, nameStart := p, colon := p + name.length, mark := p + name.length + 1 } f
    value hvalue hblank name _ ys hdrop rfl hne hdropValue
  refine ⟨{ m with fieldStart := p, nameStart := p, colon := p + name.length, mark := p + name.length + 2 },
    rfl, (run_name hne hname _).trans ((run_byte hspace rfl (by decide) _).trans (hread.trans ?_))⟩
  rw [hlength, ← Nat.add_assoc, ← Nat.add_assoc, ← Nat.add_assoc]

/-- The lines as they are printed. -/
def printedLines (lines : List (Bytes × Bytes)) : Bytes :=
  lines.flatMap fun line => headerLine line.1 line.2

/-- **Header lines** set their headers. -/
theorem run_lines {lines : List (Bytes × Bytes)} (hlines : ∀ line ∈ lines, IsLine u line) {ys : Bytes}
    (hdrop : text.drop p = printedLines lines ++ ys) :
    ∃ m', m'.sent = m.sent ∧ run u text 13 p (printedLines lines ++ ys) (some (m, f)) =
      run u text 13 (p + (printedLines lines).length) ys
        (some (m', { f with headers := f.headers.setHeaders lines })) := by
  induction lines generalizing p m f with
  | nil => exact ⟨m, rfl, rfl⟩
  | cons line lines ih =>
    have hsplit : printedLines (line :: lines) = headerLine line.1 line.2 ++ printedLines lines := rfl
    rw [hsplit, List.append_assoc] at hdrop ⊢
    obtain ⟨m₁, hsent₁, hread₁⟩ := run_line (m := m) (f := f) (hlines line List.mem_cons_self) hdrop
    obtain ⟨m₂, hsent₂, hread₂⟩ := ih (m := m₁)
      (f := { f with headers := f.headers.setHeader line.1 line.2 })
      (fun line' h => hlines line' (List.mem_cons_of_mem _ h)) (drop_piece hdrop)
    refine ⟨m₂, hsent₂.trans hsent₁, hread₁.trans (hread₂.trans ?_)⟩
    rw [List.length_append, Nat.add_assoc]
    rfl

/-- **The empty line** ends the run. -/
theorem run_end (hsent : m.sent = false) (hdrop : text.drop p = 13 :: 10 :: body) :
    ∃ m', run u text 13 p (13 :: 10 :: body) (some (m, f)) = ⟨.stop, 348, p + 2, some (m', f)⟩ := by
  have hlt : p + 1 < text.length := lt_length (@drop_piece text p [13] _ hdrop)
  have hcr : (byte 13).goes table 13 (· == ⟨18, [.startField], false⟩) = true := by decide +kernel
  have hlf : (byte 10).goes table 18 (· == ⟨348, [.done], true⟩) = true := by decide +kernel
  have hread : readAct text .done (p + 1) (some ({ m with fieldStart := p }, f)) =
      some ({ m with fieldStart := p, bodyStart := p + 2 }, f) := by
    unfold readAct
    rw [Option.bind_some, scanAct]
    dsimp only
    rw [hsent, if_neg Bool.false_ne_true]
    rfl
  refine ⟨{ m with fieldStart := p, bodyStart := p + 2 }, (run_byte hcr rfl (by decide) _).trans ?_⟩
  have hstop := @exec_of_stops _ _ _ _ (machine u) (readAct text) 18 (p + 1) 10 body
    (some ({ m with fieldStart := p }, f)) _
    (Class.arc_eq hlf (by cases u <;> decide)) rfl
  exact hstop.trans (congrArg (Exit.mk Halt.stop 348 (p + 2)) hread)

/-! ## The head -/

/-- The header lines of `dump`. -/
def HttpRequest.printedFields (r : HttpRequest) : List (Bytes × Bytes) :=
  (ascii "connection", r.connection) ::
    ((r.headers.entries.filter fun header => !HttpRequest.isConnection header.1) ++
      if r.body.isEmpty then [] else [(ascii "content-length", toDecimal r.body.length)])

/-- What the parser makes of a printed request. -/
def HttpRequest.head (r : HttpRequest) : HttpRequest :=
  { r with close := true, body := [], headers := .setHeaders .empty r.printedFields }

/-- A printed request up to its body. -/
def HttpRequest.headText (r : HttpRequest) : Bytes :=
  httpMethod2String r.method ++ 32 :: (printedUri r ++ 32 ::
    (printedVersion r.version ++ 13 :: 10 :: (printedLines r.printedFields ++ [13, 10])))

theorem headText_append (r : HttpRequest) (body : Bytes) :
    r.headText ++ body = httpMethod2String r.method ++ 32 :: (printedUri r ++ 32 ::
      (printedVersion r.version ++ 13 :: 10 :: (printedLines r.printedFields ++ 13 :: 10 :: body))) := by
  simp [HttpRequest.headText]

theorem toString_eq (r : HttpRequest) : r.toString = r.headText ++ r.body := by
  have hversion : ascii " HTTP/" ++ toDecimal (r.version.value >>> 4) ++ ascii "." ++
      toDecimal (r.version.value &&& 0x0F) ++ ascii "\r\n" =
        32 :: (printedVersion r.version ++ [13, 10]) := by
    cases r.version <;> decide +kernel
  have hlines : (r.headers.entries.flatMap fun header =>
      if HttpRequest.isConnection header.1 then [] else headerLine header.1 header.2) =
      printedLines (r.headers.entries.filter fun header => !HttpRequest.isConnection header.1) := by
    induction r.headers.entries with
    | nil => rfl
    | cons header rest ih =>
      rw [List.flatMap_cons, ih, List.filter_cons]
      cases HttpRequest.isConnection header.1 <;> rfl
  have hpieces : r.toString = httpMethod2String r.method ++ ascii " " ++ printedUri r ++
      (ascii " HTTP/" ++ toDecimal (r.version.value >>> 4) ++ ascii "." ++
        toDecimal (r.version.value &&& 0x0F) ++ ascii "\r\n") ++
      headerLine (ascii "connection") r.connection ++
      (r.headers.entries.flatMap fun header =>
        if HttpRequest.isConnection header.1 then [] else headerLine header.1 header.2) ++
      (if r.body.isEmpty then ascii "\r\n"
      else headerLine (ascii "content-length") (toDecimal r.body.length) ++ ascii "\r\n" ++ r.body) := by
    simp [HttpRequest.toString, HttpRequest.dump, printedUri]
  have hbody : (if r.body.isEmpty then ascii "\r\n"
      else headerLine (ascii "content-length") (toDecimal r.body.length) ++ ascii "\r\n" ++ r.body) =
      printedLines
        (if r.body.isEmpty then [] else [(ascii "content-length", toDecimal r.body.length)]) ++
          13 :: 10 :: r.body := by
    have hend : ascii "\r\n" = [13, 10] := rfl
    cases r.body <;> simp [printedLines, hend]
  rw [headText_append, hpieces, hversion, hlines, hbody, HttpRequest.printedFields, printedLines,
    printedLines, printedLines, List.flatMap_cons, List.flatMap_append, show ascii " " = [32] from rfl]
  simp

theorem isDigit_toDecimal {n : Nat} : ∀ b ∈ toDecimal n, 48 ≤ b.toNat ∧ b.toNat ≤ 57 := by
  unfold toDecimal
  split
  · intro b hb
    rw [List.mem_singleton.mp hb]
    decide
  · intro b hb
    obtain ⟨d, hd, rfl⟩ := List.mem_map.mp hb
    have hlt : d < 10 := Nat.digits_lt_base (by decide) (List.mem_reverse.mp hd)
    rw [UInt8.toNat_ofNat', Nat.mod_eq_of_lt (by omega)]
    omega

theorem isLine_printedFields {r : HttpRequest} (hr : r.Printable u) :
    ∀ line ∈ r.printedFields, IsLine u line := by
  have hown : ∀ name ∈ [ascii "connection", ascii "content-length"],
      name ≠ [] ∧ ∀ b ∈ name, tokenChar.contains u b = true := by
    cases u <;> decide +kernel
  intro line hline
  simp only [HttpRequest.printedFields, List.mem_cons, List.mem_append, List.mem_filter] at hline
  rcases hline with rfl | ⟨hheader, -⟩ | hlength
  · have hvalue : (∀ b ∈ r.connection, isControl b = false) ∧ r.connection.head? ≠ some 32 := by
      unfold HttpRequest.connection
      cases r.close <;> decide +kernel
    exact ⟨hown _ (by simp), hvalue⟩
  · exact ⟨hr.name line hheader, hr.value line hheader⟩
  · split at hlength
    · cases hlength
    · obtain rfl := List.mem_singleton.mp hlength
      refine ⟨hown _ (by simp), fun b hb => ?_, fun h => ?_⟩
      · have := isDigit_toDecimal b hb
        rw [isControl, Bool.or_eq_false_iff, decide_eq_false_iff_not, beq_eq_false_iff_ne]
        omega
      · have := (isDigit_toDecimal 32 (List.mem_of_mem_head? h)).1
        exact absurd this (by decide)

/-- **The machine reads the head of a printed request**, and makes its members of it. -/
theorem run_head {r : HttpRequest} (hr : r.Printable u)
    (hm : r.method ≠ .msearch ∧ r.method ≠ .invalidMethod) (hauthority : HasAuthority u r.path)
    (htext : text = r.headText ++ body) :
    ∃ m, run u text httpParserStart 0 text (some ({}, {})) =
      ⟨.stop, 348, r.headText.length, some (m, r.head)⟩ := by
  have hsize := congrArg List.length htext
  rw [headText_append] at htext
  obtain ⟨fields, hfields⟩ : ∃ t, t = printedLines r.printedFields ++ 13 :: 10 :: body := ⟨_, rfl⟩
  obtain ⟨version, hversion⟩ : ∃ t, t = printedVersion r.version ++ 13 :: 10 :: fields := ⟨_, rfl⟩
  rw [← hfields, ← hversion] at htext
  have hlength := congrArg List.length htext
  have hversionLength : (printedVersion r.version).length = 8 := by cases r.version <;> rfl
  -- where the pieces begin
  obtain ⟨p₁, hp₁⟩ : ∃ p, p = (httpMethod2String r.method).length + 1 := ⟨_, rfl⟩
  obtain ⟨p₂, hp₂⟩ : ∃ p, p = p₁ + (printedUri r).length + 1 := ⟨_, rfl⟩
  have hdrop₁ : text.drop p₁ = printedUri r ++ 32 :: version := by
    rw [htext, hp₁]
    exact @drop_piece _ _ [32] _ (List.drop_left ..)
  have hdrop₂ : text.drop p₂ = printedVersion r.version ++ 13 :: 10 :: fields := by
    rw [← hversion, hp₂]
    exact @drop_piece text _ [32] _ (drop_piece hdrop₁)
  have hdrop₃ : text.drop (p₂ + 10) = printedLines r.printedFields ++ 13 :: 10 :: body := by
    have hdrop := @drop_piece text _ [13, 10] _ (drop_piece hdrop₂)
    rwa [hversionLength, hfields] at hdrop
  -- what the machine makes of them
  have hread₁ := @run_method u text r.method hm _ htext
  obtain ⟨m₂, hsent₂, hread₂⟩ :=
    run_uri (m := {}) (f := { method := r.method }) hr hauthority ⟨rfl, rfl⟩ hdrop₁
  have hread₃ := @run_version u text p₂ m₂
    { method := r.method, path := r.path, query := r.query, fragment := r.fragment } r.version fields hdrop₂
  obtain ⟨m₄, hsent₄, hread₄⟩ := @run_lines u text (p₂ + 10) { m₂ with mark := p₂ }
    { method := r.method, version := r.version, path := r.path, query := r.query, fragment := r.fragment }
    r.printedFields (isLine_printedFields hr) _ hdrop₃
  obtain ⟨m₅, hread₅⟩ := run_end (u := u) (f := r.head) (hsent₄.trans hsent₂) (drop_piece hdrop₃)
  refine ⟨m₅, ?_⟩
  have hpos : r.headText.length = p₂ + 10 + (printedLines r.printedFields).length + 2 := by
    rw [hlength, hversion, hfields] at hsize
    simp only [List.length_append, List.length_cons] at hsize
    omega
  rw [hpos, hread₁, ← hp₁, hread₂, ← hp₂, hversion, hread₃, hfields, hread₄]
  exact hread₅

/-- The scan of a printed request: where it stops, and what its tokens make. -/
theorem scan_head {r : HttpRequest} (hr : r.Printable u)
    (hm : r.method ≠ .msearch ∧ r.method ≠ .invalidMethod) (hauthority : HasAuthority u r.path)
    (htext : text = r.headText ++ body) :
    (scan u text).halt = .stop ∧ (scan u text).pos = r.headText.length ∧
      (∀ report ∈ (tokens u text).map (Token.seen (Cuts.of [text])), accepts report = true) ∧
      headOf u text = r.head := by
  obtain ⟨m, hrun⟩ := run_head hr hm hauthority htext
  obtain ⟨hhalt, hpos, hacc⟩ := @run_of_scan u text
  rw [hrun] at hhalt hpos hacc
  unfold readingOf at hacc
  dsimp only at hacc
  split at hacc
  · next hall =>
    exact ⟨hhalt.symm, hpos.symm, List.all_eq_true.mp hall,
      congrArg Prod.snd (Option.some.inj hacc).symm⟩
  · cases hacc

end Nemo.Http
