import Nemo.Http.ResponseTokens

/-!
# The order of the tokens of a response

The version, the status and the reason come once, in front of the header lines (`Tokens.unique`). All tokens lie
in the text, and the version is what the text begins with, up to a space.
-/

namespace Nemo.Http.Client

open Infra Automaton

/-! ## Kinds of tokens -/

/-- The place of a token in a response. The header lines have the place 3. -/
def Token.place : Token → Nat
  | .version .. => 0
  | .status .. => 1
  | .reason .. => 2
  | .field .. | .done .. => 3

/-- The places below `n` are taken, each by one token. -/
structure Ordered (n : Nat) (ts : List Token) : Prop where
  taken : ∀ t ∈ ts, t.place < n ∨ t.place = 3
  unique : ∀ t ∈ ts, ∀ t' ∈ ts, t.place = t'.place → t.place ≠ 3 → t = t'

theorem Ordered.mono {n n' : Nat} {ts : List Token} (h : Ordered n ts) (hle : n ≤ n') :
    Ordered n' ts where
  taken t ht := (h.taken t ht).imp_left fun hlt => Nat.lt_of_lt_of_le hlt hle
  unique := h.unique

/-- A token of the place `n`, or a header line. -/
theorem Ordered.snoc {n n' : Nat} {ts : List Token} {t : Token} (h : Ordered n ts)
    (ht : t.place = n ∧ n' = n + 1 ∨ t.place = 3 ∧ n' = n) : Ordered n' (ts ++ [t]) where
  taken t' ht' := by
    rcases List.mem_append.mp ht' with ht' | ht'
    · have := h.taken t' ht'
      omega
    · rw [List.mem_singleton.mp ht']
      omega
  unique := by
    intro t₁ ht₁ t₂ ht₂ heq hne
    rw [List.mem_append, List.mem_singleton] at ht₁ ht₂
    rcases ht₁ with ht₁ | rfl
    · rcases ht₂ with ht₂ | rfl
      · exact h.unique t₁ ht₁ t₂ ht₂ heq hne
      · have := h.taken t₁ ht₁
        omega
    · rcases ht₂ with ht₂ | rfl
      · have := h.taken t₂ ht₂
        omega
      · rfl

/-! ## Tokens lie in the text -/

/-- The token is read before the position `n`, from positions in their order. -/
def Token.Within (n : Nat) : Token → Prop
  | .version start fpc | .status start fpc | .reason start fpc => start ≤ fpc ∧ fpc < n
  | .field _ _ colon value fpc => colon ≤ fpc ∧ value ≤ fpc ∧ fpc < n
  | .done fpc => fpc < n

theorem Token.Within.mono {n n' : Nat} {t : Token} (h : t.Within n) (hn : n ≤ n') : t.Within n' := by
  cases t <;> simp only [Token.Within] at h ⊢ <;> omega

/-- No mark is beyond `n`, and no token beyond `n'`. -/
structure Behind (n n' : Nat) (y : Scanning) : Prop where
  marks : y.1.toMarks.Below n
  tokens : ∀ t ∈ y.2, t.Within n'

theorem scanAct_behind {p : Nat} {y : Scanning} (a : Action) (h : Behind p (p + 1) y) :
    Behind p (p + 1) (scanAct a p y) := by
  obtain ⟨m, ts⟩ := y
  obtain ⟨⟨h1, h2, h3, h4⟩, h5⟩ := h
  dsimp only at h1 h2 h3 h4 h5
  have hsnoc (t : Token) (ht : t.Within (p + 1)) : ∀ t' ∈ ts ++ [t], t'.Within (p + 1) := by
    intro t' ht'
    rcases List.mem_append.mp ht' with ht' | ht'
    · exact h5 t' ht'
    · rwa [List.mem_singleton.mp ht']
  cases a with
  | mark | startValue => exact ⟨⟨Nat.le_refl _, h2, h3, h4⟩, h5⟩
  | startField => exact ⟨⟨h1, Nat.le_refl _, h3, h4⟩, h5⟩
  | writeField => exact ⟨⟨h1, h2, h2, Nat.le_refl _⟩, h5⟩
  | writeValue => exact ⟨⟨h1, h2, h3, h4⟩, hsnoc _ ⟨h4, h1, Nat.lt_succ_self p⟩⟩
  | reasonPhrase | statusCode | httpVersion =>
    exact ⟨⟨h1, h2, h3, h4⟩, hsnoc _ ⟨h1, Nat.lt_succ_self p⟩⟩
  | done => exact ⟨⟨h1, h2, h3, h4⟩, hsnoc _ (Nat.lt_succ_self p)⟩
  | chunkSize | transChunked | writeContentLen | writeConnectionClose =>
    exact ⟨⟨h1, h2, h3, h4⟩, h5⟩

theorem perform_behind {p : Nat} {y : Scanning} (as : List Action) (h : Behind p p y) :
    Behind (p + 1) (p + 1) (perform scanAct as p y) := by
  have hinner : Behind p (p + 1) (perform scanAct as p y) := by
    have h0 : Behind p (p + 1) y := ⟨h.marks, fun t ht => (h.tokens t ht).mono (Nat.le_succ p)⟩
    clear h
    induction as generalizing y with
    | nil => exact h0
    | cons a as ih => exact ih (scanAct_behind a h0)
  obtain ⟨h1, h2, h3, h4⟩ := hinner.marks
  exact ⟨⟨by omega, by omega, h3, by omega⟩, hinner.tokens⟩

/-! ## What the table says -/

/-- The places that are taken behind the action. `none` if its place is taken already. -/
def Action.fill (n : Nat) : Action → Option Nat
  | .httpVersion => if n = 0 then some 1 else none
  | .statusCode => if n = 1 then some 2 else none
  | .reasonPhrase => if n = 2 then some 3 else none
  | _ => some n

/-- How many places are taken in a state, at the most. -/
def placesTaken (q : Nat) : Nat :=
  if q ≤ 15 ∧ q ≠ 3 then 0 else if q = 16 ∨ q = 17 then 1 else if q = 18 ∨ q = 19 then 2 else 3

/-- The states in which the version is read. -/
def isVersionState (q : Nat) : Bool := 8 ≤ q && q ≤ 15

/-- How many bytes have been read in such a state, at the least. -/
def versionLength (q : Nat) : Nat := q - 7

def Row.ordered (q : Nat) (r : Row Action) : Bool :=
  (match r.arc.actions.foldlM Action.fill (placesTaken q) with
    | some n => decide (n ≤ placesTaken r.arc.target)
    | none => false) &&
  r.arc.target != 1 &&
  (!isVersionState r.arc.target || (r.on.check (· != 0) &&
    if q = 1 then r.arc.target == 8 && r.arc.actions == [.mark]
    else isVersionState q && decide (r.arc.target ≤ q + 1) && r.arc.actions == [])) &&
  (!r.arc.actions.contains .httpVersion ||
    (q == 15 && r.arc.actions == [.httpVersion] && r.on.check (· == 32)))

theorem table_ordered : table.all (fun e => e.2.all fun r => Row.ordered e.1 r) = true := by
  decide +kernel

theorem scanAct_ordered {n n' p : Nat} {a : Action} {y : Scanning} (hfill : a.fill n = some n')
    (h : Ordered n y.2) : Ordered n' (scanAct a p y).2 := by
  obtain ⟨m, ts⟩ := y
  cases a with
  | httpVersion | statusCode | reasonPhrase =>
    simp only [Action.fill] at hfill
    split at hfill
    · next hn =>
      cases hfill
      exact h.snoc (.inl ⟨hn.symm, by omega⟩)
    · cases hfill
  | writeValue | done =>
    cases hfill
    exact h.snoc (.inr ⟨rfl, rfl⟩)
  | _ =>
    cases hfill
    exact h

theorem perform_ordered {n n' p : Nat} {as : List Action} {y : Scanning}
    (hfill : as.foldlM Action.fill n = some n') (h : Ordered n y.2) :
    Ordered n' (perform scanAct as p y).2 := by
  induction as generalizing n y with
  | nil =>
    cases hfill
    exact h
  | cons a as ih =>
    rw [List.foldlM_cons, Option.bind_eq_bind, Option.bind_eq_some_iff] at hfill
    obtain ⟨n₁, ha, has⟩ := hfill
    exact ih has (scanAct_ordered ha h)

/-! ## The version -/

/-- The version stands at the beginning, before a space. It has eight bytes or more, and none is NUL. -/
def VersionPlaced (xs : Bytes) (ts : List Token) : Prop :=
  ∀ i fpc, .version i fpc ∈ ts →
    i = 0 ∧ 8 ≤ fpc ∧ xs[fpc]? = some 32 ∧ ∀ b ∈ xs.take fpc, b ≠ 0

theorem VersionPlaced.append {xs : Bytes} {ts : List Token} (h : VersionPlaced xs ts) (ys : Bytes) :
    VersionPlaced (xs ++ ys) ts := by
  intro i fpc hmem
  obtain ⟨hi, h8, hend, hbytes⟩ := h i fpc hmem
  have hlt : fpc < xs.length := by
    by_contra hge
    rw [List.getElem?_eq_none (by omega)] at hend
    simp at hend
  rw [List.getElem?_append_left hlt, List.take_append_of_le_length (by omega)]
  exact ⟨hi, h8, hend, hbytes⟩

/-- Only the action `http_version` makes a token of the version. -/
theorem mem_perform_version {p i fpc : Nat} {as : List Action} {y : Scanning}
    (has : as.contains .httpVersion = false) :
    .version i fpc ∈ (perform scanAct as p y).2 ↔ .version i fpc ∈ y.2 := by
  induction as generalizing y with
  | nil => rfl
  | cons a as ih =>
    rw [List.contains_cons, Bool.or_eq_false_iff] at has
    refine (ih has.2).trans ?_
    cases a with
    | httpVersion => simp at has
    | _ => simp [scanAct]

/-! ## A scan -/

/-- What holds of a scan that has read `xs` and goes on in the state `q`. -/
structure Scanned (q : Nat) (xs : Bytes) (y : Scanning) : Prop where
  start : q = 1 → xs = []
  behind : Behind xs.length xs.length y
  ordered : Ordered (placesTaken q) y.2
  version : VersionPlaced xs y.2
  reading : isVersionState q = true →
    y.1.mark = 0 ∧ versionLength q ≤ xs.length ∧ ∀ b ∈ xs, b ≠ 0

/-- What holds of the tokens of a finished scan. -/
structure Tokens (text : Bytes) (ts : List Token) : Prop where
  within : ∀ t ∈ ts, t.Within text.length
  unique : ∀ t ∈ ts, ∀ t' ∈ ts, t.place = t'.place → t.place ≠ 3 → t = t'
  version : VersionPlaced text ts

theorem Tokens.append {xs : Bytes} {ts : List Token} (h : Tokens xs ts) (ys : Bytes) :
    Tokens (xs ++ ys) ts where
  within t ht := (h.within t ht).mono (by rw [List.length_append]; exact Nat.le_add_right _ _)
  unique := h.unique
  version := h.version.append ys

theorem scanned_start : Scanned httpclientParserStart [] ({}, []) where
  start _ := rfl
  behind := ⟨⟨Nat.le_refl 0, Nat.le_refl 0, Nat.le_refl 0, Nat.le_refl 0⟩, nofun⟩
  ordered := ⟨nofun, nofun⟩
  version := nofun
  reading := nofun

theorem scanned_version {q : Nat} {xs : Bytes} {b : UInt8} {r : Row Action} {y : Scanning}
    (h : Scanned q xs y) (hon : r.on.contains false b = true) (hrow : Row.ordered q r = true) :
    VersionPlaced (xs ++ [b]) (perform scanAct r.arc.actions (0 + xs.length) y).2 := by
  simp only [Row.ordered, Bool.and_eq_true] at hrow
  have hversion := hrow.2
  cases hcontains : r.arc.actions.contains .httpVersion with
  | false =>
    intro i fpc hmem
    rw [mem_perform_version hcontains] at hmem
    exact h.version.append [b] i fpc hmem
  | true =>
    rw [hcontains] at hversion
    simp only [Bool.not_true, Bool.false_or, Bool.and_eq_true, beq_iff_eq] at hversion
    obtain ⟨⟨rfl, hactions⟩, hbyte⟩ := hversion
    have hb := Class.of_check hbyte hon
    rw [beq_iff_eq] at hb
    obtain ⟨hmark, hlength, hbytes⟩ := h.reading rfl
    rw [hactions]
    intro i fpc hmem
    simp only [perform, List.foldl_cons, List.foldl_nil, scanAct, Nat.zero_add, List.mem_append,
      List.mem_singleton, Token.version.injEq] at hmem
    rcases hmem with hmem | ⟨rfl, rfl⟩
    · exact h.version.append [b] i fpc hmem
    · refine ⟨hmark, hlength, by simp [hb], ?_⟩
      rwa [List.take_left]

/-- One byte of the version. -/
theorem scanned_reading {q : Nat} {xs : Bytes} {b : UInt8} {r : Row Action} {y : Scanning}
    (h : Scanned q xs y) (hon : r.on.contains false b = true) (hrow : Row.ordered q r = true)
    (hstate : isVersionState r.arc.target = true) :
    (perform scanAct r.arc.actions (0 + xs.length) y).1.mark = 0 ∧
      versionLength r.arc.target ≤ (xs ++ [b]).length ∧ ∀ b' ∈ xs ++ [b], b' ≠ 0 := by
  simp only [Row.ordered, Bool.and_eq_true] at hrow
  have hnext := hrow.1.2
  rw [hstate, Bool.not_true, Bool.false_or, Bool.and_eq_true] at hnext
  obtain ⟨hcheck, hnext⟩ := hnext
  have hb := Class.of_check hcheck hon
  rw [bne_iff_ne] at hb
  rw [List.length_append, List.length_singleton]
  split at hnext
  · next hstart =>
    -- the first byte
    rw [Bool.and_eq_true, beq_iff_eq, beq_iff_eq] at hnext
    obtain ⟨htarget, hactions⟩ := hnext
    rw [h.start hstart, hactions, htarget]
    exact ⟨rfl, Nat.le_refl 1, by simpa using hb⟩
  · rw [Bool.and_eq_true, Bool.and_eq_true, decide_eq_true_iff, beq_iff_eq] at hnext
    obtain ⟨⟨hq, htarget⟩, hactions⟩ := hnext
    obtain ⟨hmark, hlength, hbytes⟩ := h.reading hq
    rw [hactions]
    simp only [versionLength] at hlength ⊢
    refine ⟨hmark, by omega, fun b' hb' => ?_⟩
    rcases List.mem_append.mp hb' with hb' | hb'
    · exact hbytes b' hb'
    · rwa [List.mem_singleton.mp hb']

theorem scanned_step {q : Nat} {xs : Bytes} {b : UInt8} {arc : Arc Nat Action} {y : Scanning}
    (h : Scanned q xs y) (harc : machine q b = some arc) :
    Scanned arc.target (xs ++ [b]) (perform scanAct arc.actions (0 + xs.length) y) := by
  obtain ⟨r, rfl, hon, hrow⟩ := Table.machine_of_all (P := Row.ordered) table_ordered harc
  have hversion := scanned_version h hon hrow
  have hreading := scanned_reading h hon hrow
  have hbehind := perform_behind r.arc.actions h.behind
  simp only [Row.ordered, Bool.and_eq_true] at hrow
  obtain ⟨⟨⟨hfill, htarget⟩, -⟩, -⟩ := hrow
  split at hfill
  · next n hn =>
    have hordered := perform_ordered (p := 0 + xs.length) hn h.ordered
    rw [bne_iff_ne] at htarget
    refine ⟨fun hstart => absurd hstart htarget, ?_, hordered.mono (of_decide_eq_true hfill), hversion,
      hreading⟩
    rw [List.length_append, List.length_singleton, Nat.zero_add]
    exact hbehind
  · cases hfill

/-- **The tokens of a finished scan** lie in what was read, in their order. -/
theorem scan_tokens {text : Bytes} {e : Exit Nat Scanning} (he : scan text = e)
    (hstop : e.halt = .stop) : Tokens (text.take e.pos) e.acc.2 := by
  have hrule := exec_rule (M := machine) (f := scanAct) (p := 0) (I := Scanned)
    (J := fun _ xs y => Tokens xs y.2)
    (fun q xs b arc y harc _ h => scanned_step h harc)
    (fun q xs b arc y harc _ h =>
      have hnext := scanned_step h harc
      ⟨hnext.behind.tokens, hnext.ordered.unique, hnext.version⟩)
    (l := []) scanned_start he
  simpa using hrule.2 hstop

end Nemo.Http.Client
