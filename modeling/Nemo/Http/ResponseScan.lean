import Nemo.Http.ResponseDump

/-!
# The scan of a printed response

As for a request, the run of the machine is followed through the printed text piece by piece. The state of
the run is the parser with the response that the callbacks have made.

* `run_status_line` — the status line sets version, status and reason
* `run_line` — a header line sets its header; its name is none that has an alternative of its own
* `run_connection`, `run_length` — the lines that `dump` adds
* `run_end` — the empty line ends the run
-/

namespace Nemo.Http.Client

open Infra Automaton Net

/-! ## Runs -/

/-- The parser and what the callbacks have made. `none` if one has read behind the buffer. -/
abbrev Reading := Option (HttpClientParser × Filling)

def readAct (text : Bytes) (a : Action) (fpc : Nat) (s : Reading) : Reading :=
  s.bind fun x =>
    let y := act text a fpc (x.1, [])
    (onReports y.2 x.2).map (y.1, ·)

def readingOf (f : Filling) (y : Parsing) : Reading := (onReports y.2 f).map (y.1, ·)

/-- The rest `bs` of `text` is read in the state `q`. -/
def run (text : Bytes) (q p : Nat) (bs : Bytes) (s : Reading) : Exit Nat Reading :=
  machine.exec (readAct text) q p bs s

theorem act_append (text : Bytes) (a : Action) (p : Nat) (m : HttpClientParser)
    (reports : List (Report Element)) :
    act text a p (m, reports)
      = ((act text a p (m, [])).1, reports ++ (act text a p (m, [])).2) := by
  cases a <;> simp [act]

theorem readAct_readingOf (text : Bytes) (a : Action) (p : Nat) (f : Filling) (y : Parsing) :
    readAct text a p (readingOf f y) = readingOf f (act text a p y) := by
  obtain ⟨m, reports⟩ := y
  rw [act_append]
  unfold readingOf readAct onReports
  rw [List.foldlM_append]
  cases List.foldlM (fun f r => onReport r f) f reports <;> rfl

/-- A run with the callbacks in it ends as the run of the parser does. -/
theorem run_of_exec (text : Bytes) (q : Nat) (m : HttpClientParser) (f : Filling) :
    (run text q 0 text (some (m, f))).halt = (machine.exec (act text) q 0 text (m, [])).halt ∧
      (run text q 0 text (some (m, f))).state
        = (machine.exec (act text) q 0 text (m, [])).state ∧
      (run text q 0 text (some (m, f))).pos = (machine.exec (act text) q 0 text (m, [])).pos ∧
      (run text q 0 text (some (m, f))).acc
        = readingOf f (machine.exec (act text) q 0 text (m, [])).acc := by
  have hperform : ∀ (p : Nat) (as : List Action) (y : Parsing),
      perform (readAct text) as p (readingOf f y) = readingOf f (perform (act text) as p y) := by
    intro p as
    induction as with
    | nil => exact fun _ => rfl
    | cons a as ih =>
      intro y
      show perform (readAct text) as p (readAct text a p (readingOf f y)) = _
      rw [readAct_readingOf]
      exact ih _
  exact @exec_rel _ _ _ _ _ machine (act text) (readAct text) (fun _ _ y s => s = readingOf f y) 0
    text.length (fun _ p _ arc y _ _ _ h => h ▸ hperform p arc.actions y) q 0 text (m, [])
    (some (m, f)) (Nat.le_of_eq (Nat.zero_add _)) rfl

/-! ## What the callbacks do -/

variable {text : Bytes} {p : Nat} {m : HttpClientParser} {r : HttpResponse} {e : HttpParserError}

theorem readAct_reason {piece ys : Bytes} (hdrop : text.drop m.mark = piece ++ ys)
    (hp : p = m.mark + piece.length) :
    readAct text .reasonPhrase p (some (m, r, e)) = some (m, { r with reason := piece }, e) := by
  have harg := stringArg_piece hdrop hp
  simp [readAct, act, element, onReports, onReport, harg]

theorem readAct_status :
    readAct text .statusCode p (some (m, r, e)) =
      some (m, { r with status := Int16.ofInt (atoi (text.drop m.mark)) }, e) := rfl

theorem readAct_version {version : HttpVersion}
    (hversion : versionOf (text.drop m.mark) (len m.mark p) = some version) :
    readAct text .httpVersion p (some (m, r, e)) = some (m, { r with version := version }, e) := by
  simp [readAct, act, element, onReports, onReport, onResponseVersion, hversion]

theorem readAct_field {name value xs ys : Bytes} (hname : text.drop m.fieldStart = name ++ xs)
    (hlen : m.fieldLen = name.length) (hne : name ≠ []) (hvalue : text.drop m.mark = value ++ ys)
    (hp : p = m.mark + value.length) :
    readAct text .writeValue p (some (m, r, e)) =
      some (m, { r with headers := r.headers.setHeader name value }, e) := by
  have hargName : stringArg (text.drop m.fieldStart) m.fieldLen = some name := by
    rw [stringArg, hname, hlen, if_pos (by rw [List.length_append]; omega), List.take_left]
  have hargValue := stringArg_piece hvalue hp
  have hpos : m.fieldLen ≠ 0 := by
    have := List.length_pos_iff.mpr hne
    omega
  simp [readAct, act, Offsets.field, onReports, onReport, onResponseHttpField, hargName, hargValue, hpos]

/-! ## The status line -/

def notLineEnd : Class := bytes 0 9 ++ bytes 11 12 ++ bytes 14 255

theorem contains_notLineEnd {b : UInt8} (h : HttpResponse.NotLineEnd b) :
    notLineEnd.contains false b = true := by
  have hb := b.toNat_lt
  have h10 : b.toNat ≠ 10 := fun heq => h.1 (UInt8.toNat_inj.mp heq)
  have h13 : b.toNat ≠ 13 := fun heq => h.2 (UInt8.toNat_inj.mp heq)
  simp only [notLineEnd, bytes, Class.contains, Span.contains, List.cons_append, List.nil_append,
    List.any_cons, List.any_nil, Bool.or_false, Bool.not_false, Bool.and_true, Bool.or_eq_true,
    Bool.and_eq_true, decide_eq_true_eq]
  omega

theorem status_goes :
    digit.goes table 16 (· == ⟨17, [.mark], false⟩) = true ∧
      digit.goes table 17 (· == ⟨17, [], false⟩) = true ∧
      (byte 32).goes table 17 (· == ⟨18, [.statusCode], false⟩) = true ∧
      notLineEnd.goes table 18 (· == ⟨19, [.mark], false⟩) = true ∧
      notLineEnd.goes table 19 (· == ⟨19, [], false⟩) = true ∧
      (byte 13).goes table 19 (· == ⟨24, [.reasonPhrase], false⟩) = true ∧
      (byte 10).goes table 24 (· == ⟨20, [], false⟩) = true := by
  decide +kernel

/-- **A version** and the blank behind it. -/
theorem run_version (version : HttpVersion) {ys : Bytes}
    (hdrop : text.drop p = printedVersion version ++ 32 :: ys) :
    run text 1 p (printedVersion version ++ 32 :: ys) (some (m, r, e)) =
      run text 16 (p + 9) ys (some ({ m with mark := p }, { r with version := version }, e)) := by
  have hwalk : machine.walk 1 0 (printedVersion version ++ [32]) =
      some (16, [(.mark, 0), (.httpVersion, 8)]) := by
    cases version <;> decide +kernel
  have hversion : versionOf (text.drop p) (len p (p + 8)) = some version := by
    rw [hdrop, len_of_le (Nat.le_add_right _ _), Nat.add_sub_cancel_left]
    cases version <;> rfl
  have hread : readAct text .httpVersion (p + 8) (some ({ m with mark := p }, r, e)) =
      some ({ m with mark := p }, { r with version := version }, e) :=
    readAct_version (m := { m with mark := p }) hversion
  have hrun := exec_of_walk (f := readAct text) hwalk p ys (some (m, r, e))
  have hlength : (printedVersion version ++ [32]).length = 9 := by cases version <;> rfl
  rw [List.append_assoc, hlength] at hrun
  refine hrun.trans (congrArg _ ?_)
  exact hread

theorem toDecimal_cons (n : Nat) : ∃ b rest, toDecimal n = b :: rest := by
  cases h : toDecimal n with
  | nil =>
    unfold toDecimal at h
    split at h
    · cases h
    · next hn => simp [Nat.digits_eq_nil_iff_eq_zero, hn] at h
  | cons b rest => exact ⟨b, rest, rfl⟩

theorem digitsValue_toDecimal (n : Nat) {c : UInt8} (hc : 10 ≤ digitValue c) (ys : Bytes) :
    digitsValue 10 (toDecimal n ++ c :: ys) = n := by
  have hvalues : ∀ b ∈ toDecimal n, digitValue b = b.toNat - 48 := by
    intro b hb
    rw [digitValue, if_pos (isDigit_toDecimal b hb)]
  have hdigits : ((toDecimal n).map digitValue).reverse = if n = 0 then [0] else Nat.digits 10 n := by
    rw [List.map_congr_left hvalues]
    unfold toDecimal
    split
    · rfl
    · rw [List.map_map, List.map_reverse, List.reverse_reverse]
      refine (List.map_congr_left fun d hd => ?_).trans (List.map_id _)
      have hlt : d < 10 := Nat.digits_lt_base (by decide) hd
      show (UInt8.ofNat (48 + d)).toNat - 48 = d
      rw [UInt8.toNat_ofNat', Nat.mod_eq_of_lt (by omega), Nat.add_sub_cancel_left]
  have hall : ∀ d ∈ (toDecimal n).map digitValue, decide (d < 10) = true := by
    intro d hd
    obtain ⟨b, hb, rfl⟩ := List.mem_map.mp hd
    have := isDigit_toDecimal b hb
    rw [hvalues b hb, decide_eq_true_eq]
    omega
  rw [digitsValue, List.map_append, List.takeWhile_append_of_pos hall, List.map_cons,
    List.takeWhile_cons_of_neg (by simpa using hc), List.append_nil, hdigits]
  split
  · next h0 => rw [h0]; rfl
  · exact Nat.ofDigits_digits 10 n

/-- `strtol` reads a number that was printed. -/
theorem strtol_toDecimal (n : Nat) {c : UInt8} (hc : 10 ≤ digitValue c) (ys : Bytes) :
    strtol 10 (toDecimal n ++ c :: ys) = min (n : Int) (2 ^ 63 - 1) := by
  obtain ⟨b, rest, hcons⟩ := toDecimal_cons n
  have hdigit := isDigit_toDecimal (n := n) b (by rw [hcons]; exact List.mem_cons_self)
  have hspace : isspace b = false := by
    rw [isspace, Bool.or_eq_false_iff, Bool.and_eq_false_iff, decide_eq_false_iff_not,
      decide_eq_false_iff_not, decide_eq_false_iff_not]
    omega
  have hsign : ∀ s, takeSign (b :: s) = (false, b :: s) := by
    intro s
    unfold takeSign
    split
    · next heq =>
      cases heq
      exact absurd hdigit.1 (by decide)
    · next heq =>
      cases heq
      exact absurd hdigit.1 (by decide)
    · rfl
  have hvalue := digitsValue_toDecimal n hc ys
  rw [hcons, List.cons_append] at hvalue ⊢
  rw [strtol, List.dropWhile_cons_of_neg (by rw [hspace]; exact Bool.false_ne_true), hsign]
  have hbase : ¬(10 = 16) := by decide
  simp only [hbase, Bool.false_eq_true, if_false, hvalue]

/-- A status that was printed is read again, whatever 16 bit number it is. -/
theorem ofInt_value (status : HttpStatus) :
    Int16.ofInt (toInt32 (min (HttpStatus.value status : Int) (2 ^ 63 - 1))) = status := by
  have hlo := Int16.le_toInt status
  have hhi := Int16.toInt_lt status
  have hvalue : (HttpStatus.value status : Int) = status.toInt % 2 ^ 32 := by
    rw [HttpStatus.value]
    omega
  have hmin : min (HttpStatus.value status : Int) (2 ^ 63 - 1) = status.toInt % 2 ^ 32 := by
    omega
  have hint : toInt32 (status.toInt % 2 ^ 32) = status.toInt :=
    (Int.emod_bmod status.toInt (2 ^ 32)).trans (Int.bmod_eq_of_le (by omega) (by omega))
  rw [hmin, hint, Int16.ofInt_toInt]

theorem contains_digit {b : UInt8} (h : 48 ≤ b.toNat ∧ b.toNat ≤ 57) : digit.contains false b = true := by
  simp only [digit, upTo, bytes, Class.contains, Span.contains, List.any_cons, List.any_nil, Bool.or_false,
    Bool.not_false, Bool.and_true, Bool.and_eq_true, decide_eq_true_eq]
  exact h

/-- **A status** and the blank behind it. -/
theorem run_code (status : HttpStatus) {ys : Bytes}
    (hdrop : text.drop p = toDecimal (HttpStatus.value status) ++ 32 :: ys) :
    run text 16 p (toDecimal (HttpStatus.value status) ++ 32 :: ys) (some (m, r, e)) =
      run text 18 (p + (toDecimal (HttpStatus.value status)).length + 1) ys
        (some ({ m with mark := p }, { r with status := status }, e)) := by
  obtain ⟨h16, h17, hblank, -⟩ := status_goes
  have hread : readAct text .statusCode (p + (toDecimal (HttpStatus.value status)).length)
      (some ({ m with mark := p }, r, e)) =
        some ({ m with mark := p }, { r with status := status }, e) := by
    rw [readAct_status, atoi, hdrop, strtol_toDecimal _ (by decide) ys, ofInt_value]
  obtain ⟨b, rest, hcons⟩ := toDecimal_cons (HttpStatus.value status)
  have hall : ∀ b ∈ toDecimal (HttpStatus.value status), digit.contains false b = true :=
    fun b hb => contains_digit (isDigit_toDecimal b hb)
  rw [hcons] at hread hall ⊢
  obtain ⟨hb, hrest⟩ := List.forall_mem_cons.mp hall
  rw [List.length_cons, Nat.add_comm rest.length, ← Nat.add_assoc] at hread ⊢
  refine (Class.exec_step h16 rfl hb p (rest ++ 32 :: ys) _).trans ?_
  refine (Class.exec_bytes h17 hrest (p + 1) (32 :: ys) _).trans ?_
  refine (Class.exec_step hblank rfl (contains_byte (by decide)) _ ys _).trans ?_
  exact congrArg _ hread

/-- **A reason** and the line end behind it. -/
theorem run_reason {reason ys : Bytes} (hne : reason ≠ [])
    (hreason : ∀ b ∈ reason, HttpResponse.NotLineEnd b)
    (hdrop : text.drop p = reason ++ 13 :: 10 :: ys) :
    run text 18 p (reason ++ 13 :: 10 :: ys) (some (m, r, e)) =
      run text 20 (p + reason.length + 2) ys
        (some ({ m with mark := p }, { r with reason := reason }, e)) := by
  obtain ⟨-, -, -, h18, h19, hcr, hlf⟩ := status_goes
  have hread : readAct text .reasonPhrase (p + reason.length) (some ({ m with mark := p }, r, e)) =
      some ({ m with mark := p }, { r with reason := reason }, e) :=
    readAct_reason (m := { m with mark := p }) hdrop rfl
  cases reason with
  | nil => exact absurd rfl hne
  | cons b rest =>
    obtain ⟨hb, hrest⟩ := List.forall_mem_cons.mp hreason
    rw [List.length_cons, Nat.add_comm rest.length, ← Nat.add_assoc] at hread ⊢
    refine (Class.exec_step h18 rfl (contains_notLineEnd hb) p (rest ++ 13 :: 10 :: ys) _).trans ?_
    refine (Class.exec_bytes h19 (fun b hb => contains_notLineEnd (hrest b hb)) (p + 1)
      (13 :: 10 :: ys) _).trans ?_
    refine (Class.exec_step hcr rfl (contains_byte (by decide)) _ (10 :: ys) _).trans ?_
    refine (Class.exec_step hlf rfl (contains_byte (by decide)) _ ys _).trans ?_
    exact congrArg _ hread

/-- **The status line** sets version, status and reason. -/
theorem run_statusLine (version : HttpVersion) (status : HttpStatus) {reason ys : Bytes}
    (hne : reason ≠ []) (hreason : ∀ b ∈ reason, HttpResponse.NotLineEnd b)
    (htext : text = printedVersion version ++
      32 :: (toDecimal (HttpStatus.value status) ++ 32 :: (reason ++ 13 :: 10 :: ys))) :
    ∃ mark, run text 1 0 text (some (m, r, e)) =
      run text 20 (9 + ((toDecimal (HttpStatus.value status)).length + 1) + (reason.length + 2)) ys
        (some ({ m with mark := mark }, { r with version, status, reason }, e)) := by
  have hdrop₁ : text.drop 9 = toDecimal (HttpStatus.value status) ++ 32 :: (reason ++ 13 :: 10 :: ys) := by
    rw [htext]
    cases version <;> rfl
  have hdrop₂ : text.drop (9 + ((toDecimal (HttpStatus.value status)).length + 1)) =
      reason ++ 13 :: 10 :: ys := by
    rw [← Nat.add_assoc]
    exact @drop_piece text _ [32] _ (drop_piece hdrop₁)
  have hread₁ := @run_version text 0 m r e version _ (by rw [List.drop_zero]; exact htext)
  have hread₂ := @run_code text 9 { m with mark := 0 } { r with version } e status _ hdrop₁
  have hread₃ := @run_reason text _ { m with mark := 9 } { r with version, status } e reason ys hne
    hreason hdrop₂
  refine ⟨9 + ((toDecimal (HttpStatus.value status)).length + 1), ?_⟩
  rw [← htext] at hread₁
  exact hread₁.trans (hread₂.trans hread₃)

end Nemo.Http.Client
