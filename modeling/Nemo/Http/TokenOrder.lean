import Nemo.Http.Tokens

/-!
# The order of the tokens of a request

The tokens of a scan come in a fixed order, each kind but the header lines once at most
(`Ordered.unique`), they lie in the text, and the version takes the eight bytes before the end
of its line.
-/

namespace Nemo.Http

open Infra Automaton

/-! ## Kinds of tokens -/

/-- The place of an element in a request. The header lines have the place 6. -/
def Element.place : Element → Nat
  | .requestMethod => 0
  | .requestPath => 1
  | .queryString => 2
  | .requestUri => 3
  | .fragment => 4
  | .httpVersion => 5
  | .headerDone => 7

def Token.place : Token Element → Nat
  | .element e _ _ | .kept e _ _ | .done e _ => e.place
  | .field _ _ _ _ => 6

/-- The first place that is free behind a token of the place `i`: only header lines are repeated. -/
def after (i : Nat) : Nat := if i = 6 then 6 else i + 1

/-- The tokens come in the order of their places, and the place `n` is still free. -/
structure Ordered (n : Nat) (ts : List (Token Element)) : Prop where
  pairwise : ts.Pairwise fun t t' => after t.place ≤ t'.place
  free : ∀ t ∈ ts, after t.place ≤ n

theorem Ordered.snoc {n n' : Nat} {ts : List (Token Element)} {t : Token Element}
    (h : Ordered n ts) (hle : n ≤ t.place) (hn : after t.place ≤ n') (hmono : n ≤ n') :
    Ordered n' (ts ++ [t]) where
  pairwise := by
    refine List.pairwise_append.mpr ⟨h.pairwise, List.pairwise_singleton .., ?_⟩
    intro t₁ ht₁ t₂ ht₂
    rw [List.mem_singleton] at ht₂
    subst ht₂
    exact Nat.le_trans (h.free t₁ ht₁) hle
  free := by
    intro t₁ ht₁
    rcases List.mem_append.mp ht₁ with ht₁ | ht₁
    · exact Nat.le_trans (h.free t₁ ht₁) hmono
    · rw [List.mem_singleton] at ht₁
      rwa [ht₁]

/-- There is one token of a place at most, the header lines apart. -/
theorem Ordered.unique {n : Nat} {ts : List (Token Element)} (h : Ordered n ts) {t t' : Token Element}
    (ht : t ∈ ts) (ht' : t' ∈ ts) (hplace : t.place = t'.place) (hne : t.place ≠ 6) : t = t' := by
  have hp := h.pairwise
  clear h
  induction ts with
  | nil => cases ht
  | cons t₀ ts ih =>
    obtain ⟨hfirst, hrest⟩ := List.pairwise_cons.mp hp
    have hafter : after t.place = t.place + 1 := if_neg hne
    rcases List.mem_cons.mp ht with rfl | hts
    · rcases List.mem_cons.mp ht' with rfl | hts'
      · rfl
      · have := hfirst t' hts'
        omega
    · rcases List.mem_cons.mp ht' with rfl | hts'
      · have := hfirst t hts
        rw [← hplace] at this
        omega
      · exact ih hts hts' hrest

/-! ## Tokens lie in the text -/

/--
The token is read before the position `n`, from positions in their order. Only the query is read from
a register that is not reset.
-/
def Token.Within (n : Nat) : Token Element → Prop
  | .element e start fpc => e ≠ .queryString ∧ e ≠ .headerDone ∧ start ≤ fpc ∧ fpc < n
  | .kept e start fpc => e = .queryString ∧ start ≤ fpc ∧ fpc < n
  | .field _ colon value fpc => colon ≤ fpc ∧ value ≤ fpc ∧ fpc < n
  | .done e fpc => e = .headerDone ∧ fpc < n

theorem Token.Within.mono {n n' : Nat} {t : Token Element} (h : t.Within n) (hn : n ≤ n') :
    t.Within n' := by
  cases t <;> simp only [Token.Within] at h ⊢
  · exact ⟨h.1, h.2.1, h.2.2.1, by omega⟩
  · exact ⟨h.1, h.2.1, by omega⟩
  · omega
  · exact ⟨h.1, by omega⟩

/-- No mark is beyond `n`, and no token beyond `n'`. -/
structure Behind (n n' : Nat) (y : Scanning) : Prop where
  marks : y.1.toMarks.Below n
  queryStart : y.1.queryStart ≤ n
  tokens : ∀ t ∈ y.2, t.Within n'

theorem scanAct_behind {p : Nat} {y : Scanning} (a : Action) (h : Behind p (p + 1) y) :
    Behind p (p + 1) (scanAct a p y) := by
  obtain ⟨m, ts⟩ := y
  obtain ⟨⟨h1, h2, h3, h4⟩, h5, h6⟩ := h
  dsimp only at h1 h2 h3 h4 h5 h6
  have hsnoc : ∀ t : Token Element, t.Within (p + 1) → ∀ t' ∈ ts ++ [t], t'.Within (p + 1) := by
    intro t ht t' ht'
    rcases List.mem_append.mp ht' with ht' | ht'
    · exact h6 t' ht'
    · rw [List.mem_singleton] at ht'
      rwa [ht']
  cases a with
  | mark | startValue => exact ⟨⟨Nat.le_refl _, h2, h3, h4⟩, h5, h6⟩
  | startField => exact ⟨⟨h1, Nat.le_refl _, h3, h4⟩, h5, h6⟩
  | writeField => exact ⟨⟨h1, h2, h2, Nat.le_refl _⟩, h5, h6⟩
  | writeValue =>
    exact ⟨⟨h1, h2, h3, h4⟩, h5, hsnoc _ ⟨h4, h1, Nat.lt_succ_self p⟩⟩
  | requestMethod | requestUri | fragment | httpVersion | requestPath =>
    exact ⟨⟨h1, h2, h3, h4⟩, h5, hsnoc _ ⟨by decide, by decide, h1, Nat.lt_succ_self p⟩⟩
  | startQuery => exact ⟨⟨h1, h2, h3, h4⟩, Nat.le_refl _, h6⟩
  | queryString => exact ⟨⟨h1, h2, h3, h4⟩, h5, hsnoc _ ⟨rfl, h5, Nat.lt_succ_self p⟩⟩
  | done =>
    simp only [scanAct]
    split
    · exact ⟨⟨h1, h2, h3, h4⟩, h5, h6⟩
    · exact ⟨⟨h1, h2, h3, h4⟩, h5, hsnoc _ ⟨rfl, Nat.lt_succ_self p⟩⟩
  | xml | json => exact ⟨⟨h1, h2, h3, h4⟩, h5, h6⟩

theorem perform_behind {p : Nat} {y : Scanning} (as : List Action) (h : Behind p p y) :
    Behind (p + 1) (p + 1) (perform scanAct as p y) := by
  have hinner : Behind p (p + 1) (perform scanAct as p y) := by
    have h0 : Behind p (p + 1) y :=
      ⟨h.marks, h.queryStart, fun t ht => (h.tokens t ht).mono (Nat.le_succ p)⟩
    clear h
    induction as generalizing y with
    | nil => exact h0
    | cons a as ih => exact ih (scanAct_behind a h0)
  obtain ⟨h1, h2, h3, h4⟩ := hinner.marks
  have h5 := hinner.queryStart
  exact ⟨⟨by omega, by omega, h3, by omega⟩, by omega, hinner.tokens⟩

/-! ## The order of the machine -/

/-- The place of the token that an action makes. -/
def Action.place? : Action → Option Nat
  | .requestMethod => some 0
  | .requestPath => some 1
  | .queryString => some 2
  | .requestUri => some 3
  | .fragment => some 4
  | .httpVersion => some 5
  | .writeValue => some 6
  | .done => some 7
  | _ => none

/-- What is free after an action, if the action makes no token that is out of its place. -/
def Action.fill (n : Nat) (a : Action) : Option Nat :=
  match a.place? with
  | none => some n
  | some i => if n ≤ i then some (after i) else none

/-- The first free place in a state. -/
def freePlace (q : Nat) : Nat :=
  if q ≤ 2 ∨ 175 ≤ q ∧ q ≤ 193 then 0
  else if 4 ≤ q ∧ q ≤ 12 then 5
  else if 13 ≤ q ∧ q ≤ 18 then 6
  else if 20 ≤ q ∧ q ≤ 23 then 4
  else if 29 ≤ q ∧ q ≤ 32 then 2
  else if q = 196 ∨ q = 197 ∨ 199 ≤ q ∧ q ≤ 201 then 7
  else 1

/-- The version is read in the states 5 to 12, one byte in each. -/
def isVersionState (q : Nat) : Bool := 5 ≤ q && q ≤ 12

/-- No run goes on from the state 348. -/
def Row.ordered (q : Nat) (r : Row Action) : Bool :=
  q == 348 ||
    ((match r.arc.actions.foldlM Action.fill (freePlace q) with
      | some n => r.arc.stops || n ≤ freePlace r.arc.target
      | none => false) &&
    (r.arc.stops || r.arc.target != 348) &&
    (!isVersionState r.arc.target ||
      (q + 1 == r.arc.target && r.arc.actions == if q = 4 then [.mark] else [])) &&
    (!r.arc.actions.contains .httpVersion ||
      (q == 12 && r.arc.actions == [.httpVersion] && r.on.check fun b => b == 10 || b == 13)))

theorem table_ordered : table.all (fun e => e.2.all fun r => r.ordered e.1) = true := by
  decide +kernel

theorem scanAct_ordered {n n' p : Nat} {a : Action} {y : Scanning} (hfill : a.fill n = some n')
    (h : Ordered n y.2) : n ≤ n' ∧ Ordered n' (scanAct a p y).2 := by
  obtain ⟨m, ts⟩ := y
  have hle : ∀ i, a.place? = some i → n ≤ i ∧ n' = after i := by
    intro i hi
    simp only [Action.fill, hi] at hfill
    split at hfill
    · next hn => exact ⟨hn, (Option.some.inj hfill).symm⟩
    · cases hfill
  have hsame : a.place? = none → n' = n := by
    intro hnone
    simp only [Action.fill, hnone, Option.some.injEq] at hfill
    exact hfill.symm
  have hmono : n ≤ n' := by
    cases hplace : a.place? with
    | none => exact Nat.le_of_eq (hsame hplace).symm
    | some i =>
      obtain ⟨hn, rfl⟩ := hle i hplace
      unfold after
      split <;> omega
  refine ⟨hmono, ?_⟩
  cases a with
  | mark | startField | writeField | startValue | startQuery | xml | json =>
    rw [hsame rfl]
    exact h
  | writeValue | requestMethod | requestUri | fragment | queryString | httpVersion | requestPath =>
    obtain ⟨hn, rfl⟩ := hle _ rfl
    exact h.snoc hn (Nat.le_refl _) hmono
  | done =>
    obtain ⟨hn, rfl⟩ := hle _ rfl
    simp only [scanAct]
    split
    · exact ⟨h.pairwise, fun t ht => Nat.le_trans (h.free t ht) hmono⟩
    · exact h.snoc hn (Nat.le_refl _) hmono

theorem perform_ordered {n n' p : Nat} {as : List Action} {y : Scanning}
    (hfill : as.foldlM Action.fill n = some n') (h : Ordered n y.2) :
    Ordered n' (perform scanAct as p y).2 := by
  induction as generalizing n y with
  | nil =>
    cases hfill
    exact h
  | cons a as ih =>
    rw [List.foldlM_cons, Option.bind_eq_bind, Option.bind_eq_some_iff] at hfill
    obtain ⟨n₁, ha, has⟩ := hfill
    exact ih has (scanAct_ordered ha h).2

/-! ## The version -/

/-- The tokens of the version stand in the eight bytes before the end of a line. -/
def VersionPlaced (xs : Bytes) (ts : List (Token Element)) : Prop :=
  ∀ i fpc, .element .httpVersion i fpc ∈ ts →
    i + 8 = fpc ∧ (xs[fpc]? = some 10 ∨ xs[fpc]? = some 13)

theorem VersionPlaced.snoc {xs : Bytes} {ts : List (Token Element)} (h : VersionPlaced xs ts)
    (b : UInt8) : VersionPlaced (xs ++ [b]) ts := by
  intro i fpc hmem
  obtain ⟨h8, hend⟩ := h i fpc hmem
  have hlt : fpc < xs.length := by
    by_contra hge
    rw [List.getElem?_eq_none (by omega)] at hend
    simp at hend
  rw [List.getElem?_append_left hlt]
  exact ⟨h8, hend⟩

/-- Only the action `http_version` makes a token of the version. -/
theorem mem_perform_version {p i fpc : Nat} {as : List Action} {y : Scanning}
    (has : as.contains .httpVersion = false) :
    .element .httpVersion i fpc ∈ (perform scanAct as p y).2 ↔
      .element .httpVersion i fpc ∈ y.2 := by
  induction as generalizing y with
  | nil => rfl
  | cons a as ih =>
    rw [List.contains_cons, Bool.or_eq_false_iff] at has
    refine (ih has.2).trans ?_
    cases a with
    | httpVersion => simp at has
    | done =>
      simp only [scanAct]
      split <;> simp
    | _ => simp [scanAct]

/-! ## A scan -/

/-- What holds of a scan that has read `xs` and goes on in the state `q`. -/
structure Scanned (q : Nat) (xs : Bytes) (y : Scanning) : Prop where
  state : q ≠ 348
  behind : Behind xs.length xs.length y
  ordered : Ordered (freePlace q) y.2
  version : VersionPlaced xs y.2
  mark : isVersionState q = true → y.1.mark + q = xs.length + 4

/-- What holds of the tokens of a finished scan. -/
structure Tokens (text : Bytes) (ts : List (Token Element)) : Prop where
  within : ∀ t ∈ ts, t.Within text.length
  unique : ∀ t ∈ ts, ∀ t' ∈ ts, t.place = t'.place → t.place ≠ 6 → t = t'
  version : VersionPlaced text ts

theorem scanned_start : Scanned httpParserStart [] ({}, []) where
  state := by decide
  behind := ⟨⟨Nat.le_refl 0, Nat.le_refl 0, Nat.le_refl 0, Nat.le_refl 0⟩, Nat.le_refl 0, nofun⟩
  ordered := ⟨.nil, nofun⟩
  version := nofun
  mark := nofun

theorem scanned_version {u : Bool} {q : Nat} {xs : Bytes} {b : UInt8} {r : Row Action}
    {y : Scanning} (h : Scanned q xs y) (hon : r.on.contains u b = true)
    (hrow : r.ordered q = true) :
    VersionPlaced (xs ++ [b]) (perform scanAct r.arc.actions (0 + xs.length) y).2 := by
  have h348 : (q == 348) = false := beq_eq_false_iff_ne.mpr h.state
  simp only [Row.ordered, h348, Bool.false_or, Bool.and_eq_true] at hrow
  have hversion := hrow.2
  cases hcontains : r.arc.actions.contains .httpVersion with
  | false =>
    intro i fpc hmem
    rw [mem_perform_version hcontains] at hmem
    exact h.version.snoc b i fpc hmem
  | true =>
    rw [hcontains] at hversion
    simp only [Bool.not_true, Bool.false_or, Bool.and_eq_true, beq_iff_eq] at hversion
    obtain ⟨⟨rfl, hactions⟩, hbyte⟩ := hversion
    have hb := Class.of_check hbyte hon
    simp only [Bool.or_eq_true, beq_iff_eq] at hb
    have hmark := h.mark rfl
    rw [hactions]
    intro i fpc hmem
    simp only [perform, List.foldl_cons, List.foldl_nil, scanAct, Nat.zero_add, List.mem_append,
      List.mem_singleton, Token.element.injEq, true_and] at hmem
    rcases hmem with hmem | ⟨rfl, rfl⟩
    · exact h.version.snoc b i fpc hmem
    · refine ⟨by omega, ?_⟩
      simpa using hb

theorem scanned_step {u : Bool} {q : Nat} {xs : Bytes} {b : UInt8} {arc : Arc Nat Action}
    {y : Scanning} (h : Scanned q xs y) (harc : machine u q b = some arc) :
    (arc.stops = false →
      Scanned arc.target (xs ++ [b]) (perform scanAct arc.actions (0 + xs.length) y)) ∧
    (arc.stops = true →
      Tokens (xs ++ [b]) (perform scanAct arc.actions (0 + xs.length) y).2) := by
  obtain ⟨r, rfl, hon, hrow⟩ := machine_of_table table_ordered harc
  have hversion := scanned_version h hon hrow
  have hbehind := perform_behind r.arc.actions h.behind
  have h348 : (q == 348) = false := beq_eq_false_iff_ne.mpr h.state
  simp only [Row.ordered, h348, Bool.false_or, Bool.and_eq_true] at hrow
  obtain ⟨⟨⟨hfill, htarget⟩, hplace⟩, -⟩ := hrow
  split at hfill
  · next n hn =>
    have hordered := perform_ordered (p := 0 + xs.length) hn h.ordered
    refine ⟨fun hgoes => ?_, fun _ => ?_⟩
    · rw [hgoes, Bool.false_or, decide_eq_true_eq] at hfill
      rw [hgoes, Bool.false_or, bne_iff_ne] at htarget
      refine ⟨htarget, ?_, ?_, hversion, fun hstate => ?_⟩
      · rw [List.length_append, List.length_singleton, Nat.zero_add]
        exact hbehind
      · exact ⟨hordered.pairwise, fun t ht => Nat.le_trans (hordered.free t ht) hfill⟩
      · -- one byte of the version
        rw [hstate, Bool.not_true, Bool.false_or, Bool.and_eq_true, beq_iff_eq, beq_iff_eq] at hplace
        obtain ⟨hnext, hactions⟩ := hplace
        rw [List.length_append, List.length_singleton, hactions]
        simp only [isVersionState, Bool.and_eq_true, decide_eq_true_eq] at hstate
        split
        · simp only [perform, List.foldl_cons, List.foldl_nil, scanAct]
          omega
        · have hmark := h.mark (by simp only [isVersionState, Bool.and_eq_true, decide_eq_true_eq]; omega)
          simp only [perform, List.foldl_nil]
          omega
    · refine ⟨?_, fun t ht t' ht' => hordered.unique ht ht', hversion⟩
      rw [List.length_append, List.length_singleton, Nat.zero_add]
      exact hbehind.tokens
  · cases hfill

/-- **The tokens of a finished scan** lie in what was read, in their order. -/
theorem scan_tokens {u : Bool} {text : Bytes} {e : Exit Nat Scanning} (he : scan u text = e)
    (hstop : e.halt = .stop) : Tokens (text.take e.pos) e.acc.2 := by
  have hrule := exec_rule (M := machine u) (f := scanAct) (p := 0) (I := Scanned)
    (J := fun _ xs y => Tokens xs y.2)
    (fun q xs b arc y harc hgoes h => (scanned_step h harc).1 hgoes)
    (fun q xs b arc y harc hstops h => (scanned_step h harc).2 hstops)
    (l := []) scanned_start he
  simpa using hrule.2 hstop

end Nemo.Http
