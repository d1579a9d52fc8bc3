import Nemo.Http.ResponseScan

/-!
# The header lines of a printed response

A name is read along the letters of the names with alternatives of their own (`nameStates`), so the state
in which its colon is found tells whether it is one of them (`Spelled`). The lines that `dump` adds have
such names: `connection: close` leads to another start of a line, from which the lines go on as from the
usual one.
-/

namespace Nemo.Http.Client

open Infra Automaton Net

variable {text : Bytes} {p q : Nat} {m : HttpClientParser} {r a : HttpResponse} {e : HttpParserError}

/-! ## Names -/

/-- The words of the grammar, with the states after each of their letters. -/
def words : List (Bytes × List Nat) := [
  (ascii "connection", List.range' 25 10),
  (ascii "transfer-encoding", List.range' 44 17),
  (ascii "content-length", [25, 26, 27] ++ List.range' 101 11)]

/-- The states on the way of a word, with what has been read of it. -/
def spelling : List (Nat × Bytes) :=
  words.flatMap fun (word, states) => states.zipIdx.map fun (q, i) => (q, word.take (i + 1))

/-- A name has led to the state, as a beginning of a word or otherwise. -/
def Spelled (q : Nat) (name : Bytes) : Prop := q = 21 ∨ (q, name.map tolower) ∈ spelling

/-- What `nameRows` do with the byte of a name. -/
theorem find_nameRows {acts : List Action} {letters : List (Char × Nat)} {b : UInt8}
    (hb : tokenChar.contains false b = true) (rest : List (Row Action)) :
    ∃ q', (((nameRows acts letters ++ rest).find? fun row => row.on.contains false b).map Row.arc) =
        some ⟨q', acts, false⟩ ∧
      (q' = 21 ∨ ∃ c, (c, q') ∈ letters ∧ (letter c).contains false b = true) := by
  induction letters with
  | nil =>
    refine ⟨21, ?_, .inl rfl⟩
    simp [nameRows, on, hb]
  | cons x letters ih =>
    obtain ⟨c, q⟩ := x
    have hsplit : nameRows acts ((c, q) :: letters) ++ rest =
        on (letter c) q acts :: (nameRows acts letters ++ rest) := rfl
    rw [hsplit, List.find?_cons]
    cases hc : (letter c).contains false b with
    | true =>
      refine ⟨q, ?_, .inr ⟨c, List.mem_cons_self, hc⟩⟩
      simp [on, hc]
    | false =>
      obtain ⟨q', hfind, hq'⟩ := ih
      have hor : q' = 21 ∨ ∃ c', (c', q') ∈ (c, q) :: letters ∧ (letter c').contains false b = true := by
        rcases hq' with hq' | hq'
        · exact .inl hq'
        · obtain ⟨c', hmem, hc'⟩ := hq'
          exact .inr ⟨c', List.mem_cons_of_mem _ hmem, hc'⟩
      refine ⟨q', ?_, hor⟩
      simp only [on, hc]
      exact hfind

theorem rowsOf_nameStates : ∀ x ∈ nameStates,
    table.rowsOf x.1 = nameRows [] x.2.1 ++ [on (is ':') x.2.2 [.writeField]] :=
  List.map_inj_left.mp rfl

theorem eq_of_contains_letter {c : Char} {b : UInt8} (h : (letter c).contains false b = true) :
    b = UInt8.ofNat c.toUpper.toNat ∨ b = UInt8.ofNat c.toNat := by
  have hbyte : ∀ {n : Nat}, n ≤ b.toNat ∧ b.toNat ≤ n → b = UInt8.ofNat n := by
    rintro n ⟨hlo, hhi⟩
    rw [Nat.le_antisymm hlo hhi, UInt8.ofNat_toNat]
  simp only [letter, is, byte, Class.contains, Span.contains, List.cons_append, List.nil_append,
    List.any_cons, List.any_nil, Bool.or_false, Bool.not_false, Bool.and_true, Bool.or_eq_true,
    Bool.and_eq_true, decide_eq_true_eq] at h
  exact h.imp hbyte hbyte

/-- The letters lead on from a beginning of a word. -/
def Continues (word : Bytes) (letters : List (Char × Nat)) : Prop :=
  ∀ x ∈ letters, (x.2, word ++ [UInt8.ofNat x.1.toNat]) ∈ spelling ∧
    tolower (UInt8.ofNat x.1.toUpper.toNat) = UInt8.ofNat x.1.toNat ∧
    tolower (UInt8.ofNat x.1.toNat) = UInt8.ofNat x.1.toNat

instance (word : Bytes) (letters : List (Char × Nat)) : Decidable (Continues word letters) :=
  inferInstanceAs (Decidable (∀ _ ∈ _, _))

theorem Continues.mem {word : Bytes} {letters : List (Char × Nat)} (h : Continues word letters) {c : Char}
    (hc : (c, q) ∈ letters) {b : UInt8} (hb : (letter c).contains false b = true) :
    (q, word ++ [tolower b]) ∈ spelling := by
  obtain ⟨hmem, hupper, hlower⟩ := h _ hc
  rcases eq_of_contains_letter hb with rfl | rfl
  · rw [hupper]
    exact hmem
  · rw [hlower]
    exact hmem

theorem spelling_letters : ∀ s ∈ spelling, ∃ x ∈ nameStates, x.1 = s.1 ∧
    Continues s.2 x.2.1 ∧ (x.2.2 = 22 ∨ s.2 ∈ HttpResponse.reservedNames) := by
  decide +kernel

/-- A byte of a name leads on. -/
theorem Spelled.next {name : Bytes} (h : Spelled q name) {b : UInt8}
    (hb : tokenChar.contains false b = true) :
    ∃ q', machine q b = some ⟨q', [], false⟩ ∧ Spelled q' (name ++ [b]) := by
  have hgoes : ∀ x ∈ nameStates, x.1 = q → ∃ q', machine q b = some ⟨q', [], false⟩ ∧
      (q' = 21 ∨ ∃ c, (c, q') ∈ x.2.1 ∧ (letter c).contains false b = true) := by
    rintro x hx rfl
    have hrows := rowsOf_nameStates x hx
    unfold machine Table.machine
    rw [hrows]
    exact find_nameRows hb _
  rcases h with rfl | hspelled
  · obtain ⟨q', harc, hq'⟩ := hgoes (21, [], 22) (by decide) rfl
    refine ⟨q', harc, hq'.imp_right ?_⟩
    rintro ⟨c, hc, -⟩
    cases hc
  · obtain ⟨x, hx, hxq, hletters, -⟩ := spelling_letters _ hspelled
    obtain ⟨q', harc, hq'⟩ := hgoes x hx hxq
    refine ⟨q', harc, hq'.imp_right ?_⟩
    rintro ⟨c, hc, hcb⟩
    rw [List.map_append, List.map_singleton]
    exact hletters.mem hc hcb

/-- The colon behind a name that is not reserved. -/
theorem Spelled.colon {name : Bytes} (h : Spelled q name)
    (hname : name.map tolower ∉ HttpResponse.reservedNames) :
    machine q 58 = some ⟨22, [.writeField], false⟩ := by
  have hcolon : ∀ x ∈ nameStates, machine x.1 58 = some ⟨x.2.2, [.writeField], false⟩ := by
    decide +kernel
  rcases h with rfl | hspelled
  · exact hcolon (21, [], 22) (by decide)
  · obtain ⟨x, hx, rfl, -, hx22⟩ := spelling_letters _ hspelled
    rw [hcolon x hx, hx22.resolve_right hname]

/-- The rest of a name. -/
theorem run_spelled {s : Reading} {done rest : Bytes} (h : Spelled q done)
    (hrest : ∀ b ∈ rest, tokenChar.contains false b = true) (p : Nat) (ys : Bytes) :
    ∃ q', Spelled q' (done ++ rest) ∧
      run text q p (rest ++ ys) s = run text q' (p + rest.length) ys s := by
  induction rest generalizing q p done with
  | nil => exact ⟨q, by rwa [List.append_nil], rfl⟩
  | cons b rest ih =>
    obtain ⟨hb, hrest⟩ := List.forall_mem_cons.mp hrest
    obtain ⟨q₁, harc, hq₁⟩ := h.next hb
    obtain ⟨q', hq', hread⟩ := ih hq₁ hrest (p + 1)
    rw [List.append_assoc, List.singleton_append] at hq'
    refine ⟨q', hq', (exec_of_goes harc rfl).trans (hread.trans ?_)⟩
    rw [List.length_cons, Nat.add_comm rest.length, Nat.add_assoc]

/-- The first byte of a name. -/
theorem exists_arc_lineStart {b : UInt8} (hb : tokenChar.contains false b = true) :
    ∃ q, machine 20 b = some ⟨q, [.startField], false⟩ ∧ Spelled q [b] := by
  have hrows : table.rowsOf 20 = stop (byte 10) 120 [.done] :: on (byte 13) 3 ::
      (nameRows [.startField] [('c', 25), ('t', 44)] ++ []) := rfl
  have hlf : (byte 10).contains false b = false :=
    Class.not_contains_of_apart (c := tokenChar) (by decide) hb
  have hcr : (byte 13).contains false b = false :=
    Class.not_contains_of_apart (c := tokenChar) (by decide) hb
  obtain ⟨q, hfind, hq⟩ := @find_nameRows [.startField] [('c', 25), ('t', 44)] b hb []
  refine ⟨q, ?_, hq.imp_right ?_⟩
  · unfold machine Table.machine
    rw [hrows, List.find?_cons, List.find?_cons]
    simp only [stop, on, hlf, hcr]
    exact hfind
  · rintro ⟨c, hc, hcb⟩
    have hletters : Continues [] [('c', 25), ('t', 44)] := by decide +kernel
    exact hletters.mem hc hcb

/-! ## Lines -/

/-- The bytes that begin a value. -/
def valueStart : Class := bytes 0 8 ++ bytes 14 31 ++ bytes 33 255

theorem contains_valueStart {b : UInt8} (h : isspace b = false) : valueStart.contains false b = true := by
  have hb := b.toNat_lt
  simp only [isspace, Bool.or_eq_false_iff, Bool.and_eq_false_iff, decide_eq_false_iff_not] at h
  simp only [valueStart, bytes, Class.contains, Span.contains, List.cons_append, List.nil_append,
    List.any_cons, List.any_nil, Bool.or_false, Bool.not_false, Bool.and_true, Bool.or_eq_true,
    Bool.and_eq_true, decide_eq_true_eq]
  omega

theorem line_goes :
    (byte 32).goes table 22 (· == ⟨22, [.startValue], false⟩) = true ∧
      valueStart.goes table 22 (· == ⟨23, [.startValue], false⟩) = true ∧
      (byte 13).goes table 22 (· == ⟨24, [.startValue, .writeValue], false⟩) = true ∧
      notLineEnd.goes table 23 (· == ⟨23, [], false⟩) = true ∧
      (byte 13).goes table 23 (· == ⟨24, [.writeValue], false⟩) = true ∧
      (byte 10).goes table 24 (· == ⟨20, [], false⟩) = true := by
  decide +kernel

/-- A line that is read back: a token that is none of the reserved names, and a value. -/
structure IsLine (line : Bytes × Bytes) : Prop where
  ne : line.1 ≠ []
  name : ∀ b ∈ line.1, tokenChar.contains false b = true
  reserved : line.1.map tolower ∉ HttpResponse.reservedNames
  value : ∀ b ∈ line.2, HttpResponse.NotLineEnd b
  start : ∀ b, line.2.head? = some b → isspace b = false

/-- A name and the colon behind it. -/
theorem run_name {line : Bytes × Bytes} (h : IsLine line) (p : Nat) (ys : Bytes) :
    run text 20 p (line.1 ++ 58 :: ys) (some (m, r, e)) =
      run text 22 (p + line.1.length + 1) ys
        (some ({ m with fieldStart := p, fieldLen := line.1.length }, r, e)) := by
  obtain ⟨name, value⟩ := line
  obtain ⟨hne, hname, hreserved, -⟩ := h
  dsimp only at *
  cases name with
  | nil => exact absurd rfl hne
  | cons b rest =>
    obtain ⟨hb, hrest⟩ := List.forall_mem_cons.mp hname
    obtain ⟨q, harc, hq⟩ := exists_arc_lineStart hb
    obtain ⟨q', hq', hread⟩ := run_spelled hq hrest (p + 1) (58 :: ys)
    refine (exec_of_goes harc rfl).trans (hread.trans ((exec_of_goes (hq'.colon hreserved) rfl).trans ?_))
    have hlen : len p (p + 1 + rest.length) = rest.length + 1 := by
      rw [len_of_le (by omega)]
      omega
    show run text 22 _ ys (some ({ m with fieldStart := p, fieldLen := len p (p + 1 + rest.length) }, r, e)) = _
    rw [hlen, List.length_cons, Nat.add_comm rest.length, Nat.add_assoc p]

/-- A value and the line end behind it. -/
theorem run_value {line : Bytes × Bytes} (h : IsLine line) {xs ys : Bytes}
    (hname : text.drop m.fieldStart = line.1 ++ xs) (hlen : m.fieldLen = line.1.length)
    (hdrop : text.drop p = line.2 ++ 13 :: 10 :: ys) :
    run text 22 p (line.2 ++ 13 :: 10 :: ys) (some (m, r, e)) =
      run text 20 (p + line.2.length + 2) ys
        (some ({ m with mark := p }, { r with headers := r.headers.setHeader line.1 line.2 }, e)) := by
  obtain ⟨-, hstart, hcr, h23, hcr', hlf⟩ := line_goes
  have hread : readAct text .writeValue (p + line.2.length) (some ({ m with mark := p }, r, e)) =
      some ({ m with mark := p }, { r with headers := r.headers.setHeader line.1 line.2 }, e) :=
    readAct_field (m := { m with mark := p }) hname hlen h.ne hdrop rfl
  obtain ⟨name, value⟩ := line
  obtain ⟨-, -, -, hvalue, hblank⟩ := h
  dsimp only at *
  cases value with
  | nil =>
    refine (Class.exec_step hcr rfl (contains_byte (by decide)) p (10 :: ys) _).trans ?_
    refine (Class.exec_step hlf rfl (contains_byte (by decide)) _ ys _).trans ?_
    exact congrArg _ hread
  | cons b value =>
    have hb := contains_valueStart (hblank b rfl)
    have hrest := fun b' hb' => contains_notLineEnd (hvalue b' (List.mem_cons_of_mem b hb'))
    rw [List.length_cons, Nat.add_comm value.length, ← Nat.add_assoc] at hread ⊢
    refine (Class.exec_step hstart rfl hb p (value ++ 13 :: 10 :: ys) _).trans ?_
    refine (Class.exec_bytes h23 hrest (p + 1) (13 :: 10 :: ys) _).trans ?_
    refine (Class.exec_step hcr' rfl (contains_byte (by decide)) _ (10 :: ys) _).trans ?_
    refine (Class.exec_step hlf rfl (contains_byte (by decide)) _ ys _).trans ?_
    exact congrArg _ hread

theorem headerLine_append (name value ys : Bytes) :
    headerLine name value ++ ys = name ++ 58 :: 32 :: (value ++ 13 :: 10 :: ys) := by
  have hblank : ascii ": " = [58, 32] := rfl
  have hend : ascii "\r\n" = [13, 10] := rfl
  simp [headerLine, hblank, hend]

theorem length_headerLine (name value : Bytes) :
    (headerLine name value).length = name.length + value.length + 4 := by
  simp [headerLine, ascii]
  omega

/-- **A header line** sets its header. -/
theorem run_line {line : Bytes × Bytes} (h : IsLine line) {ys : Bytes}
    (hdrop : text.drop p = headerLine line.1 line.2 ++ ys) :
    ∃ m', m'.chunked = m.chunked ∧
      run text 20 p (headerLine line.1 line.2 ++ ys) (some (m, r, e)) =
        run text 20 (p + (headerLine line.1 line.2).length) ys
          (some (m', { r with headers := r.headers.setHeader line.1 line.2 }, e)) := by
  obtain ⟨hblank, -⟩ := line_goes
  rw [headerLine_append] at hdrop ⊢
  have hdropValue : text.drop (p + line.1.length + 2) = line.2 ++ 13 :: 10 :: ys :=
    @drop_piece text (p + line.1.length) [58, 32] _ (drop_piece hdrop)
  have hread₁ := @run_name text m r e line h p (32 :: (line.2 ++ 13 :: 10 :: ys))
  have hread₃ := @run_value text (p + line.1.length + 2)
    { m with fieldStart := p, fieldLen := line.1.length, mark := p + line.1.length + 1 } r e line h _ ys
    hdrop rfl hdropValue
  refine ⟨{ m with
    fieldStart := p, fieldLen := line.1.length, mark := p + line.1.length + 2 }, rfl, ?_⟩
  refine hread₁.trans ((Class.exec_step hblank rfl (contains_byte (by decide)) _ _ _).trans (hread₃.trans ?_))
  rw [length_headerLine]
  congr 1
  omega

/-- **Header lines** set their headers. -/
theorem run_lines {lines : List (Bytes × Bytes)} (h : ∀ line ∈ lines, IsLine line) {ys : Bytes}
    (hdrop : text.drop p = printedLines lines ++ ys) :
    ∃ m', m'.chunked = m.chunked ∧
      run text 20 p (printedLines lines ++ ys) (some (m, r, e)) =
        run text 20 (p + (printedLines lines).length) ys
          (some (m', { r with headers := r.headers.setHeaders lines }, e)) := by
  induction lines generalizing p m r with
  | nil => exact ⟨m, rfl, rfl⟩
  | cons line lines ih =>
    obtain ⟨hline, hlines⟩ := List.forall_mem_cons.mp h
    have hsplit : printedLines (line :: lines) = headerLine line.1 line.2 ++ printedLines lines := rfl
    rw [hsplit, List.append_assoc] at hdrop ⊢
    obtain ⟨m₁, hchunked₁, hread₁⟩ := run_line (m := m) (r := r) (e := e) hline hdrop
    obtain ⟨m₂, hchunked₂, hread₂⟩ := ih (m := m₁)
      (r := { r with headers := r.headers.setHeader line.1 line.2 }) hlines (drop_piece hdrop)
    refine ⟨m₂, hchunked₂.trans hchunked₁, hread₁.trans (hread₂.trans ?_)⟩
    rw [List.length_append, Nat.add_assoc]
    rfl

/-! ## The lines that `dump` adds -/

/-- The starts of lines: behind `connection: close` there is another one. -/
def lineStarts : List Nat := [20, 43]

/-- A header line whose name and value have been read. -/
theorem readAct_line {name value ys : Bytes} (hne : name ≠ [])
    (hdrop : text.drop p = headerLine name value ++ ys) :
    readAct text .writeValue (p + (name.length + 2 + value.length))
        (some ({ m with
          fieldStart := p, fieldLen := len p (p + name.length), mark := p + (name.length + 2) }, r, e)) =
      some ({ m with
          fieldStart := p, fieldLen := len p (p + name.length), mark := p + (name.length + 2) },
        { r with headers := r.headers.setHeader name value }, e) := by
  rw [headerLine_append] at hdrop
  have hlen : len p (p + name.length) = name.length := by
    rw [len_of_le (Nat.le_add_right _ _), Nat.add_sub_cancel_left]
  have hvalue : text.drop (p + (name.length + 2)) = value ++ 13 :: 10 :: ys :=
    @drop_piece text (p + name.length) [58, 32] _ (drop_piece hdrop)
  exact readAct_field (m := { m with
    fieldStart := p, fieldLen := len p (p + name.length), mark := p + (name.length + 2) })
    hdrop hlen hne hvalue (Nat.add_assoc p _ _).symm

/-- **`connection`** -/
theorem run_connection {ys : Bytes}
    (hdrop : text.drop p = headerLine (ascii "connection") a.connection ++ ys) :
    ∃ m', m'.chunked = m.chunked ∧ ∃ q ∈ lineStarts,
      run text 20 p (headerLine (ascii "connection") a.connection ++ ys) (some (m, r, e)) =
        run text q (p + (headerLine (ascii "connection") a.connection).length) ys
          (some (m', { r with
            headers := r.headers.setHeader (ascii "connection") a.connection }, e)) := by
  have hwalk : ∃ q ∈ lineStarts, machine.walk 20 0 (headerLine (ascii "connection") a.connection) =
      some (q, [(.startField, 0), (.writeField, 10), (.startValue, 11), (.startValue, 12),
        (.writeValue, 12 + a.connection.length)]) := by
    unfold HttpResponse.connection
    cases a.close <;> decide +kernel
  obtain ⟨q, hq, hwalk⟩ := hwalk
  have hne : ascii "connection" ≠ [] := by decide
  have hread := @readAct_line text p m r e _ _ _ hne hdrop
  have hrun := exec_of_walk (f := readAct text) hwalk p ys (some (m, r, e))
  rw [Nat.zero_add] at hrun
  refine ⟨{ m with fieldStart := p, fieldLen := len p (p + 10), mark := p + 12 }, rfl, q, hq, ?_⟩
  exact hrun.trans (congrArg _ hread)

theorem length_goes :
    digit.goes table 112 (· == ⟨119, [.startValue], false⟩) = true ∧
      digit.goes table 119 (· == ⟨119, [], false⟩) = true ∧
      (byte 13).goes table 119 (· == ⟨24, [.writeContentLen, .writeValue], false⟩) = true ∧
      (byte 10).goes table 24 (· == ⟨20, [], false⟩) = true := by
  decide +kernel

/-- **`content-length`** -/
theorem run_length (hq : q ∈ lineStarts) (n : Nat) {ys : Bytes}
    (hdrop : text.drop p = headerLine (ascii "content-length") (toDecimal n) ++ ys) :
    ∃ m', m'.chunked = m.chunked ∧
      run text q p (headerLine (ascii "content-length") (toDecimal n) ++ ys) (some (m, r, e)) =
        run text 20 (p + (headerLine (ascii "content-length") (toDecimal n)).length) ys
          (some (m', { r with
            headers := r.headers.setHeader (ascii "content-length") (toDecimal n) }, e)) := by
  obtain ⟨h112, h119, hcr, hlf⟩ := length_goes
  have hwalk : ∃ acts, (acts = [] ∨ acts = [(.writeConnectionClose, 0)]) ∧
      machine.walk q 0 (ascii "content-length: ") =
        some (112, acts ++ [(.startField, 0), (.writeField, 14), (.startValue, 15)]) := by
    rcases List.mem_cons.mp hq with rfl | hq
    · exact ⟨[], .inl rfl, by decide +kernel⟩
    · rw [List.mem_singleton.mp hq]
      exact ⟨_, .inr rfl, by decide +kernel⟩
  obtain ⟨acts, hacts, hwalk⟩ := hwalk
  obtain ⟨m₀, hchunked, hrun⟩ : ∃ m₀ : HttpClientParser, m₀.chunked = m.chunked ∧
      run text q p (ascii "content-length: " ++ (toDecimal n ++ 13 :: 10 :: ys)) (some (m, r, e)) =
        run text 112 (p + 16) (toDecimal n ++ 13 :: 10 :: ys)
          (some ({ m₀ with fieldStart := p, fieldLen := len p (p + 14), mark := p + 15 }, r, e)) := by
    have hrun := exec_of_walk (f := readAct text) hwalk p (toDecimal n ++ 13 :: 10 :: ys)
      (some (m, r, e))
    rcases hacts with rfl | rfl
    · exact ⟨m, rfl, hrun⟩
    · exact ⟨{ m with close := true }, rfl, hrun⟩
  have hne : ascii "content-length" ≠ [] := by decide
  have hsplit : headerLine (ascii "content-length") (toDecimal n) ++ ys =
      ascii "content-length: " ++ (toDecimal n ++ 13 :: 10 :: ys) := by
    rw [headerLine_append]
    rfl
  have hall : ∀ b ∈ toDecimal n, digit.contains false b = true :=
    fun b hb => contains_digit (isDigit_toDecimal b hb)
  obtain ⟨b, rest, hcons⟩ := toDecimal_cons n
  have hread := @readAct_line text p
    { m₀ with contentLen := toInt32 (strtol 10 (text.drop (p + 16))) } r e _ _ _ hne hdrop
  have hend : (ascii "content-length").length + 2 + (toDecimal n).length = 16 + (toDecimal n).length := rfl
  rw [hend, ← Nat.add_assoc] at hread
  have htail : p + (headerLine (ascii "content-length") (toDecimal n)).length =
      p + 16 + (toDecimal n).length + 2 := by
    rw [length_headerLine, show (ascii "content-length").length = 14 from rfl]
    omega
  refine ⟨{ m₀ with
    contentLen := toInt32 (strtol 10 (text.drop (p + 16)))
    fieldStart := p, fieldLen := len p (p + 14), mark := p + 16 }, hchunked, ?_⟩
  rw [hsplit, htail]
  refine hrun.trans ?_
  rw [hcons] at hread hall ⊢
  obtain ⟨hb, hrest⟩ := List.forall_mem_cons.mp hall
  rw [List.length_cons, Nat.add_comm rest.length, ← Nat.add_assoc] at hread ⊢
  refine (Class.exec_step h112 rfl hb _ (rest ++ 13 :: 10 :: ys) _).trans ?_
  refine (Class.exec_bytes h119 hrest _ (13 :: 10 :: ys) _).trans ?_
  refine (Class.exec_step hcr rfl (contains_byte (by decide)) _ (10 :: ys) _).trans ?_
  refine (Class.exec_step hlf rfl (contains_byte (by decide)) _ ys _).trans ?_
  exact congrArg _ hread

/-- **The empty line** ends the run. -/
theorem run_end (hq : q ∈ lineStarts) {body : Bytes} :
    ∃ m', m'.chunked = m.chunked ∧
      run text q p (13 :: 10 :: body) (some (m, r, e)) =
        ⟨.stop, 120, p + 2, some (m', r, e)⟩ := by
  have hlf : (byte 10).goes table 3 (· == ⟨120, [.done], true⟩) = true := by decide +kernel
  have hstop : ∀ m₀ : HttpClientParser, run text 3 (p + 1) (10 :: body) (some (m₀, r, e)) =
      ⟨.stop, 120, p + 2, some ({ m₀ with bodyStart := p + 2 }, r, e)⟩ := fun m₀ =>
    exec_of_stops (Class.arc_eq hlf (contains_byte (by decide))) rfl
  rcases List.mem_cons.mp hq with rfl | hq
  · have hcr : (byte 13).goes table 20 (· == ⟨3, [], false⟩) = true := by decide +kernel
    refine ⟨{ m with bodyStart := p + 2 }, rfl, ?_⟩
    exact (Class.exec_step hcr rfl (contains_byte (by decide)) p (10 :: body) _).trans (hstop m)
  · rw [List.mem_singleton.mp hq]
    have hcr : (byte 13).goes table 43 (· == ⟨3, [.writeConnectionClose], false⟩) = true := by
      decide +kernel
    refine ⟨{ m with close := true, bodyStart := p + 2 }, rfl, ?_⟩
    exact (Class.exec_step hcr rfl (contains_byte (by decide)) p (10 :: body) _).trans (hstop _)

end Nemo.Http.Client
