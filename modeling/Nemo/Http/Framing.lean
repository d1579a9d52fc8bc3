import Nemo.Http.Tokens
import Nemo.Http.Lines
import Nemo.Infra.Slice

/-!
# Where the head of a request ends

The reader of `Lines` and the machine read the same text. `Inv` relates them: as long as the reader
has met no dirty line, the machine is at the same place of a line, and every header name has only
bytes of `token`; a dirty line is a header name with a control byte.

* `framed_iff` : the head that the machine accepts is framed exactly if it is clean
* `not_headFraming` : a header line without a colon is not clean
-/

namespace Nemo.Http

open Infra Automaton

/-- The bytes of a header name that the machine accepts. -/
def nameChar : Class := bytes 1 8 ++ bytes 10 31 ++ tokenChar

theorem not_isSeparator_of_nameChar {b : UInt8} (h : nameChar.contains false b = true) :
    isSeparator b = false := by
  have hcheck := Class.of_check (P := fun b => !isSeparator b) (by decide +kernel) h
  simpa using hcheck

/-! ## Header names and values of a scan -/

/-- The header lines among the tokens: start and end of the name, start and end of the value. -/
def Token.line? {E : Type} : Token E → Option (Nat × Nat × Nat × Nat)
  | .field i colon value fpc => some (i, colon, value, fpc)
  | _ => none

def lines (ts : List (Token Element)) : List (Nat × Nat × Nat × Nat) := ts.filterMap Token.line?

/-- The header names that have been read, with the one that is being read in the state `q`. -/
def names (q n : Nat) (y : Scanning) : List (Nat × Nat) :=
  (lines y.2).map (fun l => (l.1, l.2.1)) ++
    if q = 14 then [(y.1.fieldStart, n)]
    else if q = 15 ∨ q = 16 then [(y.1.nameStart, y.1.colon)]
    else []

/-- The values that have been read, with the one that is being read in the state `q`. -/
def values (q n : Nat) (y : Scanning) : List (Nat × Nat) :=
  (lines y.2).map (fun l => (l.2.2.1, l.2.2.2)) ++ if q = 16 then [(y.1.mark, n)] else []

/-- The state of the machine fits the mode of the reader. -/
def Mode.Fits (q : Nat) : Mode → Bool
  | .requestLine => (1 ≤ q && q ≤ 12) || q == 17 || (19 ≤ q && q ≤ 193)
  | .lineStart => q == 13
  | .cr => q == 18
  | .name => q == 14
  | .value => q == 15 || q == 16 || q == 17
  | .headEnd => false
  | .dirty => 13 ≤ q && q ≤ 18

/-- The header names `rs`: `dirty` says whether one of them holds a control byte. -/
structure Names (xs : Bytes) (dirty : Prop) (rs : List (Nat × Nat)) : Prop where
  spans : Spans (fun b => nameChar.contains false b = true) xs rs
  nonempty : ∀ r ∈ rs, r.1 < r.2
  dirty_iff : dirty ↔ ∃ r ∈ rs, ∃ b ∈ slice xs r.1 r.2, isControl b = true

namespace Names

variable {xs : Bytes} {d : Prop} {rs : List (Nat × Nat)}

theorem snoc (h : Names xs d rs) (b : UInt8) : Names (xs ++ [b]) d rs where
  spans := h.spans.snoc b
  nonempty := h.nonempty
  dirty_iff := by
    rw [h.dirty_iff]
    refine exists_congr fun r => and_congr_right fun hr => ?_
    rw [slice_append_left (h.spans r hr).2.1]

/-- One more name. -/
theorem add (h : Names xs d rs) {i j : Nat} (hij : i < j) (hj : j ≤ xs.length)
    (hb : ∀ b ∈ slice xs i j, nameChar.contains false b = true) :
    Names xs (d ∨ ∃ b ∈ slice xs i j, isControl b = true) (rs ++ [(i, j)]) where
  spans := h.spans.add (Nat.le_of_lt hij) hj hb
  nonempty := by
    intro r hr
    rcases List.mem_append.mp hr with hr | hr
    · exact h.nonempty r hr
    · rw [List.mem_singleton] at hr
      subst hr
      exact hij
  dirty_iff := by
    rw [h.dirty_iff]
    simp only [List.mem_append, List.mem_singleton, or_and_right, exists_or, exists_eq_left]

/-- The name that is being read gets one more byte. -/
theorem grow {i : Nat} (h : Names xs d (rs ++ [(i, xs.length)])) {b : UInt8}
    (hb : nameChar.contains false b = true) :
    Names (xs ++ [b]) (d ∨ isControl b = true) (rs ++ [(i, xs.length + 1)]) where
  spans := h.spans.grow hb
  nonempty := by
    intro r hr
    rcases List.mem_append.mp hr with hr | hr
    · exact h.nonempty r (List.mem_append_left _ hr)
    · rw [List.mem_singleton] at hr
      subst hr
      have := h.nonempty (i, xs.length) (List.mem_append_right _ List.mem_cons_self)
      exact Nat.lt_succ_of_lt this
  dirty_iff := by
    have hi : i ≤ xs.length :=
      (h.spans (i, xs.length) (List.mem_append_right _ List.mem_cons_self)).1
    have hrs : (∃ r ∈ rs, ∃ b' ∈ slice (xs ++ [b]) r.1 r.2, isControl b' = true) ↔
        ∃ r ∈ rs, ∃ b' ∈ slice xs r.1 r.2, isControl b' = true := by
      refine exists_congr fun r => and_congr_right fun hr => ?_
      rw [slice_append_left (h.spans r (List.mem_append_left _ hr)).2.1]
    rw [h.dirty_iff]
    simp only [List.mem_append, List.mem_singleton, or_and_right, exists_or, exists_eq_left, hrs,
      slice_snoc hi, or_assoc]

theorem congr {d' : Prop} (h : Names xs d rs) (hd : d ↔ d') : Names xs d' rs :=
  ⟨h.spans, h.nonempty, hd.symm.trans h.dirty_iff⟩

end Names

def NotBreak (b : UInt8) : Prop := b ≠ 10 ∧ b ≠ 13

/-- The machine in the state `q` and the reader have read the request head `xs`. -/
structure Inv (q : Nat) (xs : Bytes) (y : Scanning) : Prop where
  fits : (modeOf xs).Fits q = true
  sent : y.1.sent = false
  names : Names xs (modeOf xs = .dirty) (names q xs.length y)
  values : Spans NotBreak xs (values q xs.length y)
  cr : q = 18 → y.1.fieldStart + 1 = xs.length ∧ slice xs y.1.fieldStart xs.length = [13]

/-- What the end of a head leaves: the line end `b` has been read. -/
structure Ended (xs : Bytes) (y : Scanning) : Prop where
  read : ∃ ys, xs = ys ++ [10] ∧ (modeOf ys = .lineStart ∨ modeOf ys = .cr ∨ modeOf ys = .dirty)
  sent : y.1.sent = false
  bodyStart : y.1.bodyStart = xs.length
  names : Names xs (modeOf xs = .dirty) ((lines y.2).map fun l => (l.1, l.2.1))
  values : Spans NotBreak xs ((lines y.2).map fun l => (l.2.2.1, l.2.2.2))

/-! ## One byte -/

/-- A byte that adds no name and no dirt. -/
theorem Inv.carry {q q' : Nat} {xs : Bytes} {b : UInt8} {y y' : Scanning} (h : Inv q xs y)
    (hfits : ((modeOf xs).next b).Fits q' = true)
    (hdirty : (modeOf xs).next b = .dirty ↔ modeOf xs = .dirty)
    (hsent : y'.1.sent = y.1.sent)
    (hnames : Http.names q' (xs.length + 1) y' = Http.names q xs.length y)
    (hvalues : Spans NotBreak (xs ++ [b]) (Http.values q' (xs.length + 1) y'))
    (hcr : q' = 18 → y'.1.fieldStart = xs.length ∧ b = 13) : Inv q' (xs ++ [b]) y' where
  fits := by rwa [modeOf_snoc]
  sent := hsent.trans h.sent
  names := by
    rw [List.length_append, List.length_singleton, hnames]
    exact (h.names.snoc b).congr (by rw [modeOf_snoc, hdirty])
  values := by rwa [List.length_append, List.length_singleton]
  cr := by
    intro hq
    obtain ⟨hstart, rfl⟩ := hcr hq
    rw [hstart, List.length_append, List.length_singleton, slice_snoc (Nat.le_refl _), slice_self]
    exact ⟨rfl, rfl⟩

/-- The byte of a class with one element. -/
theorem eq_of_byte {n : Nat} {u : Bool} {b : UInt8} (h : (byte n).contains u b = true) :
    b.toNat = n := by
  simp only [byte, Class.contains, Span.contains, List.any_cons, List.any_nil, Bool.or_false,
    Bool.and_eq_true, decide_eq_true_eq] at h
  omega

theorem step_lineEnd {u : Bool} {xs : Bytes} {b : UInt8} {arc : Arc Nat Action} {y : Scanning}
    (h : Inv 17 xs y) (harc : machine u 17 b = some arc) :
    arc.stops = false ∧
      Inv arc.target (xs ++ [b]) (perform scanAct arc.actions (0 + xs.length) y) := by
  have hrows : table.rowsOf 17 = [on (byte 10) 13] := rfl
  obtain ⟨r, hr, rfl, hon⟩ := Table.exists_row harc
  rw [hrows, List.mem_singleton] at hr
  subst hr
  obtain rfl : b = 10 := UInt8.toNat_inj.mp (eq_of_byte hon)
  have hf := h.fits
  have hmode : modeOf xs = .requestLine ∨ modeOf xs = .value ∨ modeOf xs = .dirty := by
    revert hf
    cases modeOf xs <;> decide
  refine ⟨rfl, h.carry ?_ ?_ rfl rfl (h.values.snoc _) fun h => absurd h (by decide)⟩
  · rcases hmode with hm | hm | hm <;> rw [hm] <;> rfl
  · rcases hmode with hm | hm | hm <;> rw [hm] <;> decide

theorem step_value {u : Bool} {xs : Bytes} {b : UInt8} {arc : Arc Nat Action} {y : Scanning}
    (h : Inv 16 xs y) (harc : machine u 16 b = some arc) :
    arc.stops = false ∧
      Inv arc.target (xs ++ [b]) (perform scanAct arc.actions (0 + xs.length) y) := by
  have hrows : table.rowsOf 16 =
      [on (bytes 1 9 ++ bytes 11 12 ++ bytes 14 126 ++ bytes 128 255) 16,
        on (byte 10) 13 [.writeValue], on (byte 13) 17 [.writeValue]] := rfl
  obtain ⟨r, hr, rfl, hon⟩ := Table.exists_row harc
  have hf := h.fits
  have hmode : modeOf xs = .value ∨ modeOf xs = .dirty := by
    revert hf
    cases modeOf xs <;> decide
  have hv := h.values
  -- a value that ends becomes the value of a token
  have hnames : ∀ q', q' ≠ 14 → q' ≠ 15 → q' ≠ 16 →
      names q' (xs.length + 1) (scanAct .writeValue (0 + xs.length) y) = names 16 xs.length y := by
    intro q' h14 h15 h16
    simp [names, h14, h15, h16, scanAct, lines, Token.line?]
  have hvalues : ∀ q', q' ≠ 16 →
      values q' (xs.length + 1) (scanAct .writeValue (0 + xs.length) y)
        = values 16 xs.length y := by
    intro q' h16
    simp [values, h16, scanAct, lines, Token.line?]
  rw [hrows] at hr
  simp only [List.mem_cons, List.not_mem_nil, or_false] at hr
  rcases hr with rfl | rfl | rfl
  · have hb := Class.of_check (P := fun b => b != 10 && b != 13) (by decide +kernel) hon
    simp only [Bool.and_eq_true, bne_iff_ne] at hb
    refine ⟨rfl, h.carry ?_ ?_ rfl rfl (hv.grow hb) fun h => absurd h (by decide)⟩
    · rcases hmode with hm | hm <;> simp [hm, Mode.next, hb.1, Mode.Fits, on]
    · rcases hmode with hm | hm <;> simp [hm, Mode.next, hb.1]
  · obtain rfl : b = 10 := UInt8.toNat_inj.mp (eq_of_byte hon)
    refine ⟨rfl, h.carry ?_ ?_ rfl (hnames 13 ?_ ?_ ?_) ?_ fun h => absurd h (by decide)⟩
    · rcases hmode with hm | hm <;> rw [hm] <;> rfl
    · rcases hmode with hm | hm <;> rw [hm] <;> decide
    · decide
    · decide
    · decide
    · exact (hvalues 13 (by decide)) ▸ hv.snoc _
  · obtain rfl : b = 13 := UInt8.toNat_inj.mp (eq_of_byte hon)
    refine ⟨rfl, h.carry ?_ ?_ rfl (hnames 17 ?_ ?_ ?_) ?_ fun h => absurd h (by decide)⟩
    · rcases hmode with hm | hm <;> rw [hm] <;> rfl
    · rcases hmode with hm | hm <;> rw [hm] <;> decide
    · decide
    · decide
    · decide
    · exact (hvalues 17 (by decide)) ▸ hv.snoc _

theorem step_beforeValue {u : Bool} {xs : Bytes} {b : UInt8} {arc : Arc Nat Action} {y : Scanning}
    (h : Inv 15 xs y) (harc : machine u 15 b = some arc) :
    arc.stops = false ∧
      Inv arc.target (xs ++ [b]) (perform scanAct arc.actions (0 + xs.length) y) := by
  have hrows : table.rowsOf 15 =
      [on (bytes 1 8 ++ bytes 11 12 ++ bytes 14 31 ++ bytes 33 126 ++ bytes 128 255) 16
          [.startValue],
        on (byte 9 ++ byte 32) 15 [.startValue], on (byte 10) 13 [.startValue, .writeValue],
        on (byte 13) 17 [.startValue, .writeValue]] := rfl
  obtain ⟨r, hr, rfl, hon⟩ := Table.exists_row harc
  have hf := h.fits
  have hmode : modeOf xs = .value ∨ modeOf xs = .dirty := by
    revert hf
    cases modeOf xs <;> decide
  have hv : Spans NotBreak xs ((lines y.2).map fun l => (l.2.2.1, l.2.2.2)) := h.values.left
  -- an empty value becomes the value of a token
  have hempty : Spans NotBreak (xs ++ [b])
      ((lines y.2).map (fun l => (l.2.2.1, l.2.2.2)) ++ [(xs.length, xs.length)]) := by
    refine (hv.snoc b).add (Nat.le_refl _) (by simp) ?_
    rw [slice_self]
    exact List.forall_mem_nil _
  rw [hrows] at hr
  simp only [List.mem_cons, List.not_mem_nil, or_false] at hr
  rcases hr with rfl | rfl | rfl | rfl
  · have hb := Class.of_check (P := fun b => b != 10 && b != 13) (by decide +kernel) hon
    simp only [Bool.and_eq_true, bne_iff_ne] at hb
    refine ⟨rfl, h.carry ?_ ?_ rfl ?_ ?_ fun h => absurd h (by decide)⟩
    · rcases hmode with hm | hm <;> simp [hm, Mode.next, hb.1, Mode.Fits, on]
    · rcases hmode with hm | hm <;> simp [hm, Mode.next, hb.1]
    · simp [names, on, perform, scanAct]
    · have hone := (hv.add (Nat.le_refl xs.length) (Nat.le_refl _)
        (by rw [slice_self]; exact List.forall_mem_nil _)).grow hb
      simpa [values, on, perform, scanAct] using hone
  · have hb := Class.of_check (P := fun b => b != 10) (by decide +kernel) hon
    rw [bne_iff_ne] at hb
    refine ⟨rfl, h.carry ?_ ?_ rfl ?_ ?_ fun h => absurd h (by decide)⟩
    · rcases hmode with hm | hm <;> simp [hm, Mode.next, hb, Mode.Fits, on]
    · rcases hmode with hm | hm <;> simp [hm, Mode.next, hb]
    · simp [names, on, perform, scanAct]
    · simpa [values, on, perform, scanAct] using hv.snoc b
  · obtain rfl : b = 10 := UInt8.toNat_inj.mp (eq_of_byte hon)
    refine ⟨rfl, h.carry ?_ ?_ rfl ?_ ?_ fun h => absurd h (by decide)⟩
    · rcases hmode with hm | hm <;> rw [hm] <;> rfl
    · rcases hmode with hm | hm <;> rw [hm] <;> decide
    · simp [names, on, perform, scanAct, lines, Token.line?]
    · simpa [values, on, perform, scanAct, lines, Token.line?] using hempty
  · obtain rfl : b = 13 := UInt8.toNat_inj.mp (eq_of_byte hon)
    refine ⟨rfl, h.carry ?_ ?_ rfl ?_ ?_ fun h => absurd h (by decide)⟩
    · rcases hmode with hm | hm <;> rw [hm] <;> rfl
    · rcases hmode with hm | hm <;> rw [hm] <;> decide
    · simp [names, on, perform, scanAct, lines, Token.line?]
    · simpa [values, on, perform, scanAct, lines, Token.line?] using hempty

theorem step_name {u : Bool} {xs : Bytes} {b : UInt8} {arc : Arc Nat Action} {y : Scanning}
    (h : Inv 14 xs y) (harc : machine u 14 b = some arc) :
    arc.stops = false ∧
      Inv arc.target (xs ++ [b]) (perform scanAct arc.actions (0 + xs.length) y) := by
  have hrows : table.rowsOf 14 =
      [on (bytes 1 8 ++ bytes 10 31 ++ tokenChar) 14, on (is ':') 15 [.writeField]] := rfl
  obtain ⟨r, hr, rfl, hon⟩ := Table.exists_row harc
  have hf := h.fits
  have hmode : modeOf xs = .name ∨ modeOf xs = .dirty := by
    revert hf
    cases modeOf xs <;> decide
  have hlen : (xs ++ [b]).length = xs.length + 1 := by simp
  rw [hrows] at hr
  simp only [List.mem_cons, List.not_mem_nil, or_false] at hr
  rcases hr with rfl | rfl
  · have hb := Class.of_check (P := fun b => nameChar.contains false b && b != 58)
      (by decide +kernel) hon
    simp only [Bool.and_eq_true, bne_iff_ne] at hb
    have hgrow : Names (xs ++ [b]) _ (names 14 (xs.length + 1) y) := Names.grow h.names hb.1
    refine ⟨rfl, ?_, h.sent, ?_, ?_, fun h => absurd h (by decide)⟩
    · rw [modeOf_snoc]
      rcases hmode with hm | hm
      · simp only [hm, Mode.next, hb.2, if_false]
        split <;> rfl
      · rw [hm]
        rfl
    · rw [hlen]
      refine hgrow.congr ?_
      rw [modeOf_snoc]
      rcases hmode with hm | hm
      · simp [hm, Mode.next, hb.2]
      · simp [hm, Mode.next]
    · rw [hlen]
      exact h.values.snoc b
  · obtain rfl : b = 58 := UInt8.toNat_inj.mp (eq_of_byte hon)
    refine ⟨rfl, h.carry ?_ ?_ rfl ?_ (h.values.snoc _) fun h => absurd h (by decide)⟩
    · rcases hmode with hm | hm <;> rw [hm] <;> rfl
    · rcases hmode with hm | hm <;> rw [hm] <;> decide
    · simp [names, on, perform, scanAct]

theorem step_lineStart {u : Bool} {xs : Bytes} {b : UInt8} {arc : Arc Nat Action} {y : Scanning}
    (h : Inv 13 xs y) (harc : machine u 13 b = some arc) :
    (arc.stops = false →
      Inv arc.target (xs ++ [b]) (perform scanAct arc.actions (0 + xs.length) y)) ∧
    (arc.stops = true → arc.target = 348 ∧
      Ended (xs ++ [b]) (perform scanAct arc.actions (0 + xs.length) y)) := by
  have hrows : table.rowsOf 13 =
      [on (bytes 1 8 ++ bytes 11 12 ++ bytes 14 31 ++ tokenChar) 14 [.startField],
        stop (byte 10) 348 [.startField, .done], on (byte 13) 18 [.startField]] := rfl
  obtain ⟨r, hr, rfl, hon⟩ := Table.exists_row harc
  have hf := h.fits
  have hmode : modeOf xs = .lineStart ∨ modeOf xs = .dirty := by
    revert hf
    cases modeOf xs <;> decide
  have hnames : Names xs (modeOf xs = .dirty) ((lines y.2).map fun l => (l.1, l.2.1)) := by
    simpa [names] using h.names
  have hvalues : Spans NotBreak xs ((lines y.2).map fun l => (l.2.2.1, l.2.2.2)) := h.values.left
  have hlen : (xs ++ [b]).length = xs.length + 1 := by simp
  rw [hrows] at hr
  simp only [List.mem_cons, List.not_mem_nil, or_false] at hr
  rcases hr with rfl | rfl | rfl
  · -- the first byte of a header name
    refine ⟨fun _ => ?_, fun h => absurd h (by decide)⟩
    have hb := Class.of_check
      (P := fun b => nameChar.contains false b && b != 58 && b != 10 && b != 13)
      (by decide +kernel) hon
    simp only [Bool.and_eq_true, bne_iff_ne] at hb
    obtain ⟨⟨⟨hname, hcolon⟩, hlf⟩, hcr⟩ := hb
    have hone : slice (xs ++ [b]) xs.length (xs.length + 1) = [b] := by
      rw [slice_snoc (Nat.le_refl _), slice_self, List.nil_append]
    have hadd := (hnames.snoc b).add (Nat.lt_succ_self xs.length) (Nat.le_of_eq hlen.symm)
      (by rw [hone]; simpa using hname)
    refine ⟨?_, h.sent, ?_, ?_, fun h => absurd h (by decide)⟩
    · rw [modeOf_snoc]
      rcases hmode with hm | hm
      · simp only [hm, Mode.next, hlf, hcr, if_false]
        split <;> rfl
      · rw [hm]
        rfl
    · rw [hlen]
      refine Names.congr (by simpa [names, on, perform, scanAct] using hadd) ?_
      rw [modeOf_snoc, hone]
      rcases hmode with hm | hm
      · simp [hm, Mode.next, hlf, hcr, hcolon]
      · simp [hm, Mode.next]
    · simpa [values, on, perform, scanAct] using hvalues.snoc b
  · -- the empty line
    refine ⟨fun h => absurd h (by decide), fun _ => ⟨rfl, ?_⟩⟩
    obtain rfl : b = 10 := UInt8.toNat_inj.mp (eq_of_byte hon)
    have hdone : perform scanAct [.startField, .done] (0 + xs.length) y
        = ({ y.1 with fieldStart := xs.length, bodyStart := xs.length + 1 },
            y.2 ++ [.done .headerDone xs.length]) := by
      simp [perform, scanAct, h.sent]
    refine ⟨⟨xs, rfl, hmode.imp id .inr⟩, ?_, ?_, ?_, ?_⟩
    · exact (congrArg (fun y => y.1.sent) hdone).trans h.sent
    · rw [hlen]
      simp only [stop, hdone]
    · refine Names.congr (d := modeOf xs = .dirty) ?_ ?_
      · simpa only [stop, hdone, lines, List.filterMap_append, List.filterMap_cons,
          List.filterMap_nil, Token.line?, List.append_nil] using hnames.snoc 10
      · rw [modeOf_snoc]
        rcases hmode with hm | hm <;> rw [hm] <;> decide
    · simpa only [stop, hdone, lines, List.filterMap_append, List.filterMap_cons,
        List.filterMap_nil, Token.line?, List.append_nil] using hvalues.snoc 10
  · -- a carriage return: an empty line, or the first byte of a name
    refine ⟨fun _ => ?_, fun h => absurd h (by decide)⟩
    obtain rfl : b = 13 := UInt8.toNat_inj.mp (eq_of_byte hon)
    refine h.carry ?_ ?_ rfl ?_ ?_ fun _ => ⟨by simp [on, perform, scanAct], rfl⟩
    · rcases hmode with hm | hm <;> rw [hm] <;> rfl
    · rcases hmode with hm | hm <;> rw [hm] <;> decide
    · simp [names, on, perform, scanAct]
    · simpa [values, on, perform, scanAct] using hvalues.snoc 13

theorem step_cr {u : Bool} {xs : Bytes} {b : UInt8} {arc : Arc Nat Action} {y : Scanning}
    (h : Inv 18 xs y) (harc : machine u 18 b = some arc) :
    (arc.stops = false →
      Inv arc.target (xs ++ [b]) (perform scanAct arc.actions (0 + xs.length) y)) ∧
    (arc.stops = true → arc.target = 348 ∧
      Ended (xs ++ [b]) (perform scanAct arc.actions (0 + xs.length) y)) := by
  have hrows : table.rowsOf 18 =
      [on (bytes 1 8 ++ bytes 11 31 ++ tokenChar) 14, stop (byte 10) 348 [.done],
        on (is ':') 15 [.writeField]] := rfl
  obtain ⟨r, hr, rfl, hon⟩ := Table.exists_row harc
  have hf := h.fits
  have hmode : modeOf xs = .cr ∨ modeOf xs = .dirty := by
    revert hf
    cases modeOf xs <;> decide
  have hnames : Names xs (modeOf xs = .dirty) ((lines y.2).map fun l => (l.1, l.2.1)) := by
    simpa [names] using h.names
  have hvalues : Spans NotBreak xs ((lines y.2).map fun l => (l.2.2.1, l.2.2.2)) := h.values.left
  have hlen : (xs ++ [b]).length = xs.length + 1 := by simp
  obtain ⟨hstart, hcr⟩ := h.cr rfl
  -- the carriage return is the first byte of a header name
  have hname : ∀ c ∈ slice xs y.1.fieldStart xs.length, nameChar.contains false c = true := by
    rw [hcr]
    intro c hc
    rw [List.mem_singleton.mp hc]
    decide +kernel
  have hadd := hnames.add (i := y.1.fieldStart) (j := xs.length) (by omega) (Nat.le_refl _) hname
  have hdirty : (modeOf xs = .dirty ∨
      ∃ c ∈ slice xs y.1.fieldStart xs.length, isControl c = true) ↔ True := by
    rw [hcr]
    simp [isControl]
  rw [hrows] at hr
  simp only [List.mem_cons, List.not_mem_nil, or_false] at hr
  rcases hr with rfl | rfl | rfl
  · refine ⟨fun _ => ?_, fun h => absurd h (by decide)⟩
    have hb := Class.of_check (P := fun b => nameChar.contains false b && b != 10)
      (by decide +kernel) hon
    simp only [Bool.and_eq_true, bne_iff_ne] at hb
    have hnext : (modeOf xs).next b = .dirty := by
      rcases hmode with hm | hm <;> simp [hm, Mode.next, hb.2]
    refine ⟨?_, h.sent, ?_, ?_, fun h => absurd h (by decide)⟩
    · rw [modeOf_snoc, hnext]
      rfl
    · rw [hlen, modeOf_snoc, hnext]
      exact (hadd.grow hb.1).congr (by rw [hdirty]; simp)
    · simpa [values, on, perform, scanAct] using hvalues.snoc b
  · refine ⟨fun h => absurd h (by decide), fun _ => ⟨rfl, ?_⟩⟩
    obtain rfl : b = 10 := UInt8.toNat_inj.mp (eq_of_byte hon)
    have hdone : perform scanAct [.done] (0 + xs.length) y
        = ({ y.1 with bodyStart := xs.length + 1 }, y.2 ++ [.done .headerDone xs.length]) := by
      simp [perform, scanAct, h.sent]
    refine ⟨⟨xs, rfl, .inr hmode⟩, ?_, ?_, ?_, ?_⟩
    · exact (congrArg (fun y => y.1.sent) hdone).trans h.sent
    · rw [hlen]
      simp only [stop, hdone]
    · refine Names.congr (d := modeOf xs = .dirty) ?_ ?_
      · simpa only [stop, hdone, lines, List.filterMap_append, List.filterMap_cons,
          List.filterMap_nil, Token.line?, List.append_nil] using hnames.snoc 10
      · rw [modeOf_snoc]
        rcases hmode with hm | hm <;> rw [hm] <;> decide
    · simpa only [stop, hdone, lines, List.filterMap_append, List.filterMap_cons,
        List.filterMap_nil, Token.line?, List.append_nil] using hvalues.snoc 10
  · refine ⟨fun _ => ?_, fun h => absurd h (by decide)⟩
    obtain rfl : b = 58 := UInt8.toNat_inj.mp (eq_of_byte hon)
    have hnext : (modeOf xs).next 58 = .dirty := by
      rcases hmode with hm | hm <;> rw [hm] <;> rfl
    refine ⟨?_, h.sent, ?_, ?_, fun h => absurd h (by decide)⟩
    · rw [modeOf_snoc, hnext]
      rfl
    · rw [hlen, modeOf_snoc, hnext]
      refine Names.congr (by simpa [names, on, perform, scanAct] using hadd.snoc 58) ?_
      rw [hdirty]
      simp
    · simpa [values, on, perform, scanAct] using hvalues.snoc 58

/-- The actions of the request line. They make no header line. -/
def Action.ofLine : Action → Bool
  | .mark | .requestMethod | .requestUri | .fragment | .startQuery | .queryString | .httpVersion
  | .requestPath => true
  | _ => false

/-- The states of the raw socket requests. -/
def isSocketState (q : Nat) : Bool := 194 ≤ q && q ≤ 347

/--
In the request line a line feed leads to the first header line, and no other byte does. The raw
socket requests are among themselves.
-/
def Row.framed (q : Nat) (r : Row Action) : Bool :=
  (q == 17 || !Mode.requestLine.Fits q ||
    (!r.arc.stops && r.arc.actions.all Action.ofLine &&
      ((!r.on.contains true 10 &&
          (Mode.requestLine.Fits r.arc.target || isSocketState r.arc.target)) ||
        (r.on.all (fun x => x.lo == 10 && x.hi == 10) && r.arc.target == 13)))) &&
  (!isSocketState q ||
    if r.arc.stops then
      r.arc == ⟨349, [.xml, .done], true⟩ || r.arc == ⟨349, [.json, .done], true⟩
    else isSocketState r.arc.target)

theorem table_framed : table.all (fun e => e.2.all fun r => r.framed e.1) = true := by
  decide +kernel

theorem perform_ofLine {as : List Action} (has : as.all Action.ofLine = true) (p : Nat)
    (y : Scanning) :
    (perform scanAct as p y).1.sent = y.1.sent ∧
      lines (perform scanAct as p y).2 = lines y.2 := by
  induction as generalizing y with
  | nil => exact ⟨rfl, rfl⟩
  | cons a as ih =>
    rw [List.all_cons, Bool.and_eq_true] at has
    obtain ⟨h1, h2⟩ := ih has.2 (scanAct a p y)
    have ha := has.1
    refine ⟨h1.trans ?_, h2.trans ?_⟩
    · cases a <;> first | rfl | cases ha
    · cases a <;> first | (simp [lines, scanAct, Token.line?]; done) | cases ha

theorem step_requestLine {u : Bool} {q : Nat} {xs : Bytes} {b : UInt8} {arc : Arc Nat Action}
    {y : Scanning} (h : Inv q xs y) (hq : q < 13 ∨ 18 < q) (harc : machine u q b = some arc) :
    arc.stops = false ∧ (isSocketState arc.target = true ∨
      Inv arc.target (xs ++ [b]) (perform scanAct arc.actions (0 + xs.length) y)) := by
  obtain ⟨r, rfl, hon, hframed⟩ := machine_of_table table_framed harc
  have hmode : modeOf xs = .requestLine := by
    have hf := h.fits
    cases hm : modeOf xs <;> rw [hm] at hf <;> simp [Mode.Fits] at hf ⊢ <;> omega
  have hfits := h.fits
  rw [hmode] at hfits
  have h17 : (q == 17) = false := by simp; omega
  simp only [Row.framed, h17, hfits, Bool.not_true, Bool.false_or, Bool.and_eq_true] at hframed
  obtain ⟨⟨⟨hstops, hline⟩, htarget⟩, -⟩ := hframed
  obtain ⟨hsent, hlines⟩ := perform_ofLine hline (0 + xs.length) y
  rw [Bool.not_eq_true'] at hstops
  refine ⟨hstops, ?_⟩
  -- no name and no value is being read before or after this byte
  have hcarry : ∀ q', (q' < 14 ∨ 18 < q' ∨ q' = 17) →
      ((modeOf xs).next b).Fits q' = true → (modeOf xs).next b ≠ .dirty →
      Inv q' (xs ++ [b]) (perform scanAct r.arc.actions (0 + xs.length) y) := by
    intro q' hq' hfits' hdirty
    have hclean : modeOf xs ≠ .dirty := by
      rw [hmode]
      decide
    refine h.carry hfits' (iff_of_false hdirty hclean) hsent ?_ ?_ (by omega)
    · have h1 : q' ≠ 14 ∧ q' ≠ 15 ∧ q' ≠ 16 := by omega
      have h2 : q ≠ 14 ∧ q ≠ 15 ∧ q ≠ 16 := by omega
      simp only [names, h1, h2, if_false, or_self, hlines]
    · have h1 : q' ≠ 16 := by omega
      have hv := h.values.left.snoc b
      simpa only [values, h1, if_false, hlines, List.append_nil] using hv
  simp only [Bool.or_eq_true, Bool.and_eq_true, Bool.not_eq_true', beq_iff_eq] at htarget
  rcases htarget with ⟨hlf, hreq | hsocket⟩ | ⟨hlf, htarget⟩
  · -- still in the request line
    have hb : b ≠ 10 := by
      rintro rfl
      rw [Class.contains_true hon] at hlf
      cases hlf
    have hnext : (modeOf xs).next b = .requestLine := by simp [hmode, Mode.next, hb]
    refine .inr (hcarry _ ?_ (by rwa [hnext]) (by rw [hnext]; decide))
    simp only [Mode.Fits, Bool.or_eq_true, Bool.and_eq_true, decide_eq_true_eq, beq_iff_eq] at hreq
    omega
  · exact .inl hsocket
  · have hb : b = 10 := by
      obtain ⟨x, hx, hxb⟩ := List.any_eq_true.mp hon
      have h10 := List.all_eq_true.mp hlf x hx
      simp only [Bool.and_eq_true, beq_iff_eq] at h10
      simp only [Span.contains, h10, Bool.and_eq_true, decide_eq_true_eq] at hxb
      have : b.toNat = 10 := by omega
      exact UInt8.toNat_inj.mp this
    have hnext : (modeOf xs).next b = .lineStart := by simp [hmode, Mode.next, hb]
    rw [htarget]
    exact .inr (hcarry 13 (by omega) (by rw [hnext]; rfl) (by rw [hnext]; decide))

theorem step_socket {u : Bool} {q : Nat} {b : UInt8} {arc : Arc Nat Action} {y : Scanning}
    (hq : isSocketState q = true) (harc : machine u q b = some arc) (p : Nat) :
    (arc.stops = false → isSocketState arc.target = true) ∧
    (arc.stops = true → arc.target = 349 ∧ (perform scanAct arc.actions p y).1.sent = true) := by
  obtain ⟨r, rfl, -, hframed⟩ := machine_of_table table_framed harc
  simp only [Row.framed, hq, Bool.not_true, Bool.false_or, Bool.and_eq_true] at hframed
  have hsocket := hframed.2
  cases hstops : r.arc.stops with
  | false =>
    rw [hstops, if_neg nofun] at hsocket
    exact ⟨fun _ => hsocket, nofun⟩
  | true =>
    rw [hstops, if_pos rfl, Bool.or_eq_true, beq_iff_eq, beq_iff_eq] at hsocket
    rcases hsocket with harc' | harc' <;> rw [harc'] <;> exact ⟨nofun, fun _ => ⟨rfl, rfl⟩⟩

/-! ## The whole head -/

theorem inv_start : Inv httpParserStart [] ({}, []) where
  fits := rfl
  sent := rfl
  names := ⟨Spans.nil, nofun, iff_of_false (by decide) nofun⟩
  values := Spans.nil
  cr := nofun

/-- **How a scan ends**: in the middle of a request, behind a request head, or behind a raw socket request. -/
theorem scan_ends (u : Bool) (text : Bytes) {e : Exit Nat Scanning} (he : scan u text = e) :
    (e.halt = .input → e.state < httpParserFirstFinal) ∧
    (e.halt = .stop →
      (e.state = 349 ∧ e.acc.1.sent = true) ∨
        (e.state = 348 ∧ Ended (text.take e.pos) e.acc)) := by
  have hrule := exec_rule (M := machine u) (f := scanAct) (p := 0)
    (I := fun q xs y => isSocketState q = true ∨ Inv q xs y)
    (J := fun q xs y => (q = 349 ∧ y.1.sent = true) ∨ (q = 348 ∧ Ended xs y))
    ?_ ?_ (l := []) (.inr inv_start) he
  · refine ⟨fun hin => ?_, fun hstop => ?_⟩
    · rcases hrule.1 hin with hsocket | hinv
      · simp only [isSocketState, Bool.and_eq_true, decide_eq_true_eq] at hsocket
        exact Nat.lt_succ_of_le hsocket.2
      · have hf := hinv.fits
        cases hm : modeOf ([] ++ text) <;> rw [hm] at hf <;>
          simp [Mode.Fits, httpParserFirstFinal] at hf ⊢ <;> omega
    · simpa using hrule.2 hstop
  · -- an arc that goes on
    rintro q xs b arc y harc hgoes (hsocket | hinv)
    · exact .inl ((step_socket (y := y) hsocket harc 0).1 hgoes)
    by_cases hq : q < 13 ∨ 18 < q
    · exact (step_requestLine hinv hq harc).2
    obtain rfl | rfl | rfl | rfl | rfl | rfl :
        q = 13 ∨ q = 14 ∨ q = 15 ∨ q = 16 ∨ q = 17 ∨ q = 18 := by omega
    · exact .inr ((step_lineStart hinv harc).1 hgoes)
    · exact .inr (step_name hinv harc).2
    · exact .inr (step_beforeValue hinv harc).2
    · exact .inr (step_value hinv harc).2
    · exact .inr (step_lineEnd hinv harc).2
    · exact .inr ((step_cr hinv harc).1 hgoes)
  · -- an arc that stops
    rintro q xs b arc y harc hstops (hsocket | hinv)
    · exact .inl ((step_socket hsocket harc _).2 hstops)
    by_cases hq : q < 13 ∨ 18 < q
    · exact (Bool.false_ne_true ((step_requestLine hinv hq harc).1.symm.trans hstops)).elim
    obtain rfl | rfl | rfl | rfl | rfl | rfl :
        q = 13 ∨ q = 14 ∨ q = 15 ∨ q = 16 ∨ q = 17 ∨ q = 18 := by omega
    · exact .inr ((step_lineStart hinv harc).2 hstops)
    · exact (Bool.false_ne_true ((step_name hinv harc).1.symm.trans hstops)).elim
    · exact (Bool.false_ne_true ((step_beforeValue hinv harc).1.symm.trans hstops)).elim
    · exact (Bool.false_ne_true ((step_value hinv harc).1.symm.trans hstops)).elim
    · exact (Bool.false_ne_true ((step_lineEnd hinv harc).1.symm.trans hstops)).elim
    · exact .inr ((step_cr hinv harc).2 hstops)

/-! ## What is reported -/

/-- One buffer that holds the whole text. -/
def Cuts.whole (text : Bytes) : Cuts := ⟨fun _ => 0, fun _ => text⟩

theorem Cuts.whole_covers (text : Bytes) : (Cuts.whole text).Covers 0 text :=
  fun _ _ => ⟨rfl, rfl⟩

/-- Every line break of a value is a line fold: a line end that is followed by a space or a tab. -/
def NoBareBreak (value : Bytes) : Prop :=
  ∀ xs ys, (value = xs ++ 10 :: ys → ys.head? = some 32 ∨ ys.head? = some 9) ∧
    (value = xs ++ 13 :: ys → ys.head? = some 10)

/-- What a finished request head should look like to the caller of `http_parser_execute`. -/
structure Framed (text : Bytes) (parser : HttpParser) (reports : List (Report Element)) : Prop where
  names : ∀ name flen value vlen, .field name flen value vlen ∈ reports →
    name.take flen ≠ [] ∧ ∀ b ∈ name.take flen, isControl b = false ∧ isSeparator b = false
  values : ∀ name flen value vlen, .field name flen value vlen ∈ reports →
    NoBareBreak (value.take vlen)
  head : FirstEmptyLineEnds text parser.bodyStart

/-- `http_parser_execute` finishes a request, and not a raw socket request. -/
def FinishesRequest (parser : HttpParser) : Prop :=
  httpParserFinish parser = 1 ∧ parser.xmlSent = false ∧ parser.jsonSent = false

/-- The fields that are reported are the header lines of the scan. -/
theorem mem_reports_iff {text : Bytes} {ts : List (Token Element)} {name value : Bytes}
    {flen vlen : Nat} :
    .field name flen value vlen ∈ ts.map (Token.seen (Cuts.whole text)) ↔
      ∃ l ∈ lines ts, name = text.drop l.1 ∧ flen = l.2.1 - l.1 ∧ value = text.drop l.2.2.1 ∧
        vlen = len l.2.2.1 l.2.2.2 := by
  constructor
  · intro h
    obtain ⟨t, ht, hseen⟩ := List.mem_map.mp h
    cases t with
    | field i colon v fpc =>
      simp only [Token.seen, Cuts.whole, Nat.sub_zero, Report.field.injEq] at hseen
      obtain ⟨rfl, rfl, rfl, rfl⟩ := hseen
      exact ⟨(i, colon, v, fpc), List.mem_filterMap.mpr ⟨_, ht, rfl⟩, rfl, rfl, rfl, rfl⟩
    | _ => cases hseen
  · rintro ⟨⟨i, colon, v, fpc⟩, hl, rfl, rfl, rfl, rfl⟩
    obtain ⟨t, ht, hline⟩ := List.mem_filterMap.mp hl
    cases t with
    | field => 
      cases hline
      exact List.mem_map.mpr ⟨_, ht, by simp [Token.seen, Cuts.whole]⟩
    | _ => cases hline

theorem noBareBreak_of_notBreak {value : Bytes} (h : ∀ b ∈ value, NotBreak b) :
    NoBareBreak value := by
  intro xs ys
  refine ⟨?_, ?_⟩
  · rintro rfl
    exact absurd rfl (h 10 (by simp)).1
  · rintro rfl
    exact absurd rfl (h 13 (by simp)).2

/-- A finished request is a scan that has ended behind a request head. -/
theorem ended_of_finishes {uriRelaxed : Bool} {queryStart : Nat} {text : Bytes}
    {parser : HttpParser} {reports : List (Report Element)} {n : Nat}
    (h : httpParserExecute (httpParserInit uriRelaxed queryStart) text = some (parser, reports, n))
    (hfinish : FinishesRequest parser) {e : Exit Nat Scanning} (he : scan uriRelaxed text = e) :
    Ended (text.take e.pos) e.acc ∧ reports = e.acc.2.map (Token.seen (Cuts.whole text)) ∧
      parser.bodyStart = e.acc.1.bodyStart ∧ n = e.pos := by
  obtain ⟨hfin, hxml, hjson⟩ := hfinish
  have hne : text ≠ [] := by
    rintro rfl
    simp only [httpParserExecute, List.length_nil, if_true, Option.some.injEq, Prod.mk.injEq] at h
    obtain ⟨rfl, -, -⟩ := h
    cases hfin
  obtain ⟨parser', hexec, hcs, -, hbody, hsent, -⟩ := execute_follows (Cuts.whole_covers text) hne
    (resumes_init (Cuts.whole text) uriRelaxed queryStart) he
  rw [h, Option.some.injEq, Prod.mk.injEq, Prod.mk.injEq] at hexec
  obtain ⟨rfl, rfl, rfl⟩ := hexec
  rw [hxml, hjson] at hsent
  obtain ⟨hinput, hstop⟩ := scan_ends uriRelaxed text he
  -- a parser that is finished is in a final state
  have hfinal : parser.cs ≠ httpParserError ∧ httpParserFirstFinal ≤ parser.cs := by
    simp only [httpParserFinish, HttpParser.hasError, HttpParser.isFinished, beq_iff_eq,
      decide_eq_true_eq] at hfin
    split at hfin
    · cases hfin
    · next hcs0 =>
      split at hfin
      · next hge => exact ⟨hcs0, hge⟩
      · cases hfin
  cases hhalt : e.halt with
  | error =>
    rw [hhalt, if_pos rfl] at hcs
    exact absurd hcs hfinal.1
  | input =>
    rw [hhalt, if_neg (by decide)] at hcs
    have := hinput hhalt
    omega
  | stop =>
    rcases hstop hhalt with ⟨-, hs⟩ | ⟨-, hended⟩
    · rw [hs] at hsent
      cases hsent
    · exact ⟨hended, rfl, hbody, rfl⟩

/--
**The framing of a request head**, exactly when it is right: if every line of the head has its
colon and no control byte before it.
-/
theorem framed_iff {uriRelaxed : Bool} {queryStart : Nat} {text : Bytes} {parser : HttpParser}
    {reports : List (Report Element)} {n : Nat}
    (h : httpParserExecute (httpParserInit uriRelaxed queryStart) text = some (parser, reports, n))
    (hfinish : FinishesRequest parser) : Framed text parser reports ↔ CleanHead text := by
  obtain ⟨hended, rfl, hbody, rfl⟩ := ended_of_finishes h hfinish rfl
  generalize scan uriRelaxed text = e at hended hbody
  obtain ⟨⟨xs, hxs, hmode⟩, -, hstart, hnames, hvalues⟩ := hended
  have hsplit : text = text.take e.pos ++ text.drop e.pos := (List.take_append_drop ..).symm
  have hslice : ∀ {i j}, j ≤ (text.take e.pos).length →
      slice text i j = slice (text.take e.pos) i j := by
    intro i j hj
    conv_lhs => rw [hsplit]
    exact slice_append_left hj _
  constructor
  · -- a dirty line would be a header name with a control byte
    intro hframed
    have hclean : modeOf (text.take e.pos) ≠ .dirty := by
      intro hdirty
      obtain ⟨r, hr, b, hb, hctl⟩ := hnames.dirty_iff.mp hdirty
      obtain ⟨l, hl, rfl⟩ := List.mem_map.mp hr
      have hbound := (hnames.spans _ hr).2.1
      have hname := hframed.names _ _ _ _ (mem_reports_iff.mpr ⟨l, hl, rfl, rfl, rfl, rfl⟩)
      have hfree := (hname.2 b (by rw [← hslice hbound] at hb; exact hb)).1
      rw [hctl] at hfree
      cases hfree
    have hhead : modeOf (text.take e.pos) = .headEnd := by
      rw [hxs, modeOf_snoc] at hclean ⊢
      rcases hmode with hm | hm | hm
      · rw [hm]
        rfl
      · rw [hm]
        rfl
      · rw [hm] at hclean
        exact absurd rfl hclean
    unfold CleanHead
    rw [hsplit, modeOf_append_of_ended (.inl hhead), hhead]
  · intro hclean
    have hdirty : modeOf (text.take e.pos) ≠ .dirty := by
      intro hd
      unfold CleanHead at hclean
      rw [hsplit, modeOf_append_of_ended (.inr hd), hd] at hclean
      cases hclean
    refine ⟨?_, ?_, ?_⟩
    · intro name flen value vlen hmem
      obtain ⟨l, hl, rfl, rfl, -, -⟩ := mem_reports_iff.mp hmem
      have hr : (l.1, l.2.1) ∈ (lines e.acc.2).map fun l => (l.1, l.2.1) :=
        List.mem_map.mpr ⟨l, hl, rfl⟩
      obtain ⟨hle, hbound, hchars⟩ := hnames.spans _ hr
      have hlt := hnames.nonempty _ hr
      dsimp only at hle hbound hchars hlt
      show slice text l.1 l.2.1 ≠ [] ∧ ∀ b ∈ slice text l.1 l.2.1, _
      rw [hslice hbound]
      refine ⟨?_, fun b hb => ⟨?_, not_isSeparator_of_nameChar (hchars b hb)⟩⟩
      · rw [ne_eq, ← List.length_eq_zero_iff, length_slice hbound]
        omega
      · by_contra hctl
        rw [Bool.not_eq_false] at hctl
        exact hdirty (hnames.dirty_iff.mpr ⟨_, hr, b, hb, hctl⟩)
    · intro name flen value vlen hmem
      obtain ⟨l, hl, -, -, rfl, rfl⟩ := mem_reports_iff.mp hmem
      have hr : (l.2.2.1, l.2.2.2) ∈ (lines e.acc.2).map fun l => (l.2.2.1, l.2.2.2) :=
        List.mem_map.mpr ⟨l, hl, rfl⟩
      obtain ⟨hle, hbound, hchars⟩ := hvalues _ hr
      rw [len_of_le hle]
      show NoBareBreak (slice text l.2.2.1 l.2.2.2)
      rw [hslice hbound]
      exact noBareBreak_of_notBreak hchars
    · have hline : modeOf xs = .lineStart ∨ modeOf xs = .cr := by
        rcases hmode with hm | hm | hm
        · exact .inl hm
        · exact .inr hm
        · rw [hxs, modeOf_snoc, hm] at hdirty
          exact absurd rfl hdirty
      have hfirst := modeOf_empty_line hline (text.drop e.pos)
      rw [← hxs, ← hsplit] at hfirst
      rw [hbody, hstart, hxs, List.length_append]
      exact hfirst

/-- A request whose head is clean. -/
def getHost : Bytes := ascii "GET / HTTP/1.1\r\nHost: h\r\n\r\n"

theorem framed_getHost : ∃ parser reports n,
    httpParserExecute (httpParserInit false 0) getHost = some (parser, reports, n) ∧
      Framed getHost parser reports := by
  have hrun : (match httpParserExecute (httpParserInit false 0) getHost with
      | some (parser, _, _) => decide (httpParserFinish parser = 1) && !parser.xmlSent &&
          !parser.jsonSent
      | none => false) = true := by
    decide +kernel
  split at hrun
  · next parser reports n hexec =>
    simp only [Bool.and_eq_true, decide_eq_true_eq, Bool.not_eq_true'] at hrun
    obtain ⟨⟨hfin, hxml⟩, hjson⟩ := hrun
    exact ⟨parser, reports, n, hexec, (framed_iff hexec ⟨hfin, hxml, hjson⟩).mpr (by decide)⟩
  · cases hrun

/-! ## A head that is not framed -/

/-- What is expected of the grammar: every request that is finished is framed. -/
def HeadFraming : Prop :=
  ∀ (uriRelaxed : Bool) (queryStart : Nat) (text : Bytes) (parser : HttpParser)
    (reports : List (Report Element)) (n : Nat),
    httpParserExecute (httpParserInit uriRelaxed queryStart) text = some (parser, reports, n) →
    FinishesRequest parser → Framed text parser reports

/-- A header line without a colon. The next line becomes part of its name. -/
def swallowing : Bytes := ascii "GET / HTTP/1.1\r\nX\r\nHost: h\r\n\r\n"

theorem not_headFraming : ¬ HeadFraming := by
  intro hclaim
  have hrun : (match httpParserExecute (httpParserInit false 0) swallowing with
      | some (parser, reports, _) => decide (httpParserFinish parser = 1) && !parser.xmlSent &&
          !parser.jsonSent && reports.any fun
            | .field name flen _ _ => (name.take flen).any isControl
            | _ => false
      | none => false) = true := by
    decide +kernel
  split at hrun
  · next parser reports n hexec =>
    simp only [Bool.and_eq_true, decide_eq_true_eq, Bool.not_eq_true', List.any_eq_true] at hrun
    obtain ⟨⟨⟨hfin, hxml⟩, hjson⟩, r, hr, hbad⟩ := hrun
    have hframed := hclaim _ _ _ _ _ _ hexec ⟨hfin, hxml, hjson⟩
    split at hbad
    · next name flen value vlen =>
      obtain ⟨b, hb, hctl⟩ := List.any_eq_true.mp hbad
      have hfree := ((hframed.names _ _ _ _ hr).2 b hb).1
      rw [hctl] at hfree
      cases hfree
    · cases hbad
  · cases hrun

end Nemo.Http
