import Mathlib.Data.List.Basic

/-!
# Automata with actions

A deterministic automaton reads a list of symbols. Every arc names the actions that run before the
move, and an action sees the position of the symbol that is being read; what it does to the
rest of the state is the argument `act` of `Automaton.exec`, so that one automaton can be run with
different meanings of its actions.

* `exec_append_of_input` and `exec_append_of_halt` cut a run at any place of the input
* `exec_of_walk` is for an input that is known: its walk can be computed
* `exec_rel` relates two runs of one automaton with different meanings of the actions
* `exec_rule` is the rule for properties of a single run
-/

namespace Infra

/-- An arc. `stops` ends the run after the move. -/
structure Arc (Q A : Type) where
  target : Q
  actions : List A
  stops : Bool := false
  deriving DecidableEq

/-- An automaton. A missing arc is an error. -/
abbrev Automaton (Q A β : Type) := Q → β → Option (Arc Q A)

/-- Why a run has ended. -/
inductive Halt
  /-- the input is used up -/
  | input
  /-- an arc has stopped the run -/
  | stop
  /-- there is no arc for the symbol at `pos` -/
  | error
  deriving DecidableEq, Repr

/-- Where a run has ended. -/
structure Exit (Q σ : Type) where
  halt : Halt
  state : Q
  pos : Nat
  acc : σ

namespace Automaton

variable {Q A β σ τ : Type} (M : Automaton Q A β)

/-- The actions of one arc, at position `p`. -/
def perform (act : A → Nat → σ → σ) (as : List A) (p : Nat) (s : σ) : σ :=
  as.foldl (fun s a => act a p s) s

/-- A run from the state `q` at the position `p`. -/
def exec (act : A → Nat → σ → σ) : Q → Nat → List β → σ → Exit Q σ
  | q, p, [], s => ⟨.input, q, p, s⟩
  | q, p, b :: bs, s =>
    match M q b with
    | none => ⟨.error, q, p, s⟩
    | some arc =>
      let s := perform act arc.actions p s
      if arc.stops then ⟨.stop, arc.target, p + 1, s⟩ else exec act arc.target (p + 1) bs s

/--
Where arcs that go on lead from `q`, and their actions with their positions. `none` if an arc is
missing or stops.
-/
def walk : Q → Nat → List β → Option (Q × List (A × Nat))
  | q, _, [] => some (q, [])
  | q, p, b :: bs =>
    match M q b with
    | some ⟨target, as, false⟩ =>
      (walk target (p + 1) bs).map fun x => (x.1, as.map (·, p) ++ x.2)
    | _ => none

variable {M} {f : A → Nat → σ → σ} {g : A → Nat → τ → τ}

theorem exec_of_none {q : Q} {p : Nat} {b : β} {bs : List β} {s : σ} (h : M q b = none) :
    M.exec f q p (b :: bs) s = ⟨.error, q, p, s⟩ := by
  rw [exec, h]

theorem exec_of_stops {q : Q} {p : Nat} {b : β} {bs : List β} {s : σ} {arc : Arc Q A}
    (h : M q b = some arc) (hs : arc.stops = true) :
    M.exec f q p (b :: bs) s = ⟨.stop, arc.target, p + 1, perform f arc.actions p s⟩ := by
  rw [exec, h]
  simp [hs]

theorem exec_of_goes {q : Q} {p : Nat} {b : β} {bs : List β} {s : σ} {arc : Arc Q A}
    (h : M q b = some arc) (hs : arc.stops = false) :
    M.exec f q p (b :: bs) s
      = M.exec f arc.target (p + 1) bs (perform f arc.actions p s) := by
  rw [exec, h]
  simp [hs]

/-- A run that uses up its input goes on with whatever follows. -/
theorem exec_append_of_input {q : Q} {p : Nat} {xs : List β} {s : σ}
    (h : (M.exec f q p xs s).halt = .input) (ys : List β) :
    M.exec f q p (xs ++ ys) s
      = M.exec f (M.exec f q p xs s).state (M.exec f q p xs s).pos ys
          (M.exec f q p xs s).acc := by
  induction xs generalizing q p s with
  | nil => rfl
  | cons b bs ih =>
    cases harc : M q b with
    | none => rw [exec_of_none harc] at h; cases h
    | some arc =>
      cases hs : arc.stops with
      | true => rw [exec_of_stops harc hs] at h; cases h
      | false =>
        rw [exec_of_goes harc hs] at h
        rw [List.cons_append, exec_of_goes harc hs, exec_of_goes harc hs]
        exact ih h

/-- A run that has stopped or failed does not look at what follows. -/
theorem exec_append_of_halt {q : Q} {p : Nat} {xs : List β} {s : σ}
    (h : (M.exec f q p xs s).halt ≠ .input) (ys : List β) :
    M.exec f q p (xs ++ ys) s = M.exec f q p xs s := by
  induction xs generalizing q p s with
  | nil => exact absurd rfl h
  | cons b bs ih =>
    cases harc : M q b with
    | none => rw [List.cons_append, exec_of_none harc, exec_of_none harc]
    | some arc =>
      cases hs : arc.stops with
      | true => rw [List.cons_append, exec_of_stops harc hs, exec_of_stops harc hs]
      | false =>
        rw [exec_of_goes harc hs] at h
        rw [List.cons_append, exec_of_goes harc hs, exec_of_goes harc hs]
        exact ih h

/-- A run along a walk. -/
theorem exec_of_walk {q q' : Q} {i : Nat} {xs : List β} {l : List (A × Nat)}
    (h : M.walk q i xs = some (q', l)) (p : Nat) (ys : List β) (s : σ) :
    M.exec f q (p + i) (xs ++ ys) s
      = M.exec f q' (p + (i + xs.length)) ys (l.foldl (fun s x => f x.1 (p + x.2) s) s) := by
  induction xs generalizing q i l s with
  | nil =>
    cases h
    rfl
  | cons b bs ih =>
    rw [walk] at h
    split at h
    · next target as harc =>
      obtain ⟨⟨q'', l'⟩, hrest, heq⟩ := Option.map_eq_some_iff.mp h
      cases heq
      have hperform : perform f as (p + i) s
          = (as.map (·, i)).foldl (fun s x => f x.1 (p + x.2) s) s := by
        rw [perform, List.foldl_map]
      rw [List.cons_append, exec_of_goes harc rfl, hperform, List.foldl_append]
      rw [show p + i + 1 = p + (i + 1) from Nat.add_assoc p i 1, ih hrest, List.length_cons,
        Nat.add_assoc i 1, Nat.add_comm 1 bs.length]
    · cases h

/-- How much of the input a run has read. -/
theorem exec_pos (M : Automaton Q A β) (f : A → Nat → σ → σ) (q : Q) (p : Nat) (xs : List β)
    (s : σ) :
    p ≤ (M.exec f q p xs s).pos ∧ (M.exec f q p xs s).pos ≤ p + xs.length ∧
      ((M.exec f q p xs s).halt = .input →
        (M.exec f q p xs s).pos = p + xs.length) := by
  induction xs generalizing q p s with
  | nil => simp [exec]
  | cons b bs ih =>
    cases harc : M q b with
    | none => simp [exec_of_none harc]
    | some arc =>
      cases hs : arc.stops with
      | true =>
        rw [exec_of_stops harc hs, List.length_cons]
        refine ⟨?_, ?_, nofun⟩ <;> dsimp only <;> omega
      | false =>
        rw [exec_of_goes harc hs, List.length_cons]
        obtain ⟨h1, h2, h3⟩ := ih arc.target (p + 1) (perform f arc.actions p s)
        refine ⟨by omega, by omega, fun hh => ?_⟩
        rw [h3 hh]
        omega

/-- A run that stops has read a symbol. -/
theorem lt_pos_of_stop {q : Q} {p : Nat} {xs : List β} {s : σ}
    (h : (M.exec f q p xs s).halt = .stop) : p < (M.exec f q p xs s).pos := by
  cases xs with
  | nil => cases h
  | cons b bs =>
    cases harc : M q b with
    | none =>
      rw [exec_of_none harc] at h
      cases h
    | some arc =>
      cases hs : arc.stops with
      | true =>
        rw [exec_of_stops harc hs]
        exact Nat.lt_succ_self p
      | false =>
        rw [exec_of_goes harc hs]
        exact Nat.lt_of_succ_le (exec_pos M f _ _ bs _).1

/--
**Two meanings of one automaton.** The second run starts `d` positions later. A relation that every
arc keeps holds at the end, and the two runs end in the same way. `n` bounds the positions.
-/
theorem exec_rel {R : Q → Nat → σ → τ → Prop} {d n : Nat}
    (harc : ∀ q p b arc s t, p < n → M q b = some arc → R q p s t →
      R arc.target (p + 1) (perform f arc.actions p s) (perform g arc.actions (p + d) t))
    {q : Q} {p : Nat} {xs : List β} {s : σ} {t : τ} (hn : p + xs.length ≤ n) (h : R q p s t) :
    (M.exec g q (p + d) xs t).halt = (M.exec f q p xs s).halt ∧
      (M.exec g q (p + d) xs t).state = (M.exec f q p xs s).state ∧
      (M.exec g q (p + d) xs t).pos = (M.exec f q p xs s).pos + d ∧
      R (M.exec f q p xs s).state (M.exec f q p xs s).pos (M.exec f q p xs s).acc
        (M.exec g q (p + d) xs t).acc := by
  induction xs generalizing q p s t with
  | nil => exact ⟨rfl, rfl, rfl, h⟩
  | cons b bs ih =>
    rw [List.length_cons] at hn
    cases ha : M q b with
    | none =>
      rw [exec_of_none ha, exec_of_none ha]
      exact ⟨rfl, rfl, rfl, h⟩
    | some arc =>
      have hnext := harc q p b arc s t (by omega) ha h
      cases hs : arc.stops with
      | true =>
        rw [exec_of_stops ha hs, exec_of_stops ha hs]
        exact ⟨rfl, rfl, by dsimp only; omega, hnext⟩
      | false =>
        rw [exec_of_goes ha hs, exec_of_goes ha hs, Nat.add_right_comm]
        exact ih (by omega) hnext

/--
**The rule for one run.** `I` is kept by the arcs that go on, and `J` is what an arc that stops
leaves behind. Both speak of the input that has been read since the position `p`.
-/
theorem exec_rule {I J : Q → List β → σ → Prop} {p : Nat}
    (hgoes : ∀ q l b arc s, M q b = some arc → arc.stops = false → I q l s →
      I arc.target (l ++ [b]) (perform f arc.actions (p + l.length) s))
    (hstops : ∀ q l b arc s, M q b = some arc → arc.stops = true → I q l s →
      J arc.target (l ++ [b]) (perform f arc.actions (p + l.length) s))
    {q : Q} {l ys : List β} {s : σ} (h : I q l s) {e : Exit Q σ}
    (he : M.exec f q (p + l.length) ys s = e) :
    (e.halt = .input → I e.state (l ++ ys) e.acc) ∧
    (e.halt = .stop → J e.state ((l ++ ys).take (e.pos - p)) e.acc) := by
  subst he
  induction ys generalizing q l s with
  | nil => exact ⟨fun _ => by rw [List.append_nil]; exact h, nofun⟩
  | cons b bs ih =>
    cases ha : M q b with
    | none =>
      rw [exec_of_none ha]
      exact ⟨nofun, nofun⟩
    | some arc =>
      cases hs : arc.stops with
      | true =>
        rw [exec_of_stops ha hs]
        refine ⟨nofun, fun _ => ?_⟩
        have hpos : p + l.length + 1 - p = l.length + 1 := by omega
        have htake : (l ++ b :: bs).take (l.length + 1) = l ++ [b] := by
          rw [List.append_cons]
          exact List.take_left' List.length_append
        show J arc.target ((l ++ b :: bs).take (p + l.length + 1 - p)) _
        rw [hpos, htake]
        exact hstops q l b arc s ha hs h
      | false =>
        have hnext := ih (l := l ++ [b]) (hgoes q l b arc s ha hs h)
        rw [exec_of_goes ha hs]
        simpa only [List.length_append, List.length_singleton, List.append_assoc,
          List.singleton_append, Nat.add_assoc] using hnext

/--
**A run up to a symbol.** If `I` is kept by the arcs for the symbols before it, and none of them stops, the run
comes to the symbol with `I`, or there is no arc on the way. `n` bounds the positions.
-/
theorem exec_until {P : β → Prop} {I : Q → Nat → σ → Prop} {n : Nat}
    (hgoes : ∀ q p b arc s, p < n → P b → M q b = some arc → I q p s →
      arc.stops = false ∧ I arc.target (p + 1) (perform f arc.actions p s))
    {xs : List β} (hxs : ∀ b ∈ xs, P b) {q : Q} {p : Nat} {s : σ} (hn : p + xs.length ≤ n) (h : I q p s)
    (c : β) (ys : List β) :
    ((M.exec f q p (xs ++ c :: ys) s).halt = .error ∧ ∀ i, M.walk q i (xs ++ [c]) = none) ∨
    ∃ q' s' arc, I q' (p + xs.length) s' ∧ M q' c = some arc ∧
      M.exec f q p (xs ++ c :: ys) s = M.exec f q' (p + xs.length) (c :: ys) s' := by
  induction xs generalizing q p s with
  | nil =>
    cases harc : M q c with
    | none =>
      refine .inl ⟨congrArg Exit.halt (exec_of_none harc), fun i => ?_⟩
      simp only [List.nil_append, walk, harc]
    | some arc => exact .inr ⟨q, s, arc, h, harc, rfl⟩
  | cons b bs ih =>
    rw [List.length_cons] at hn
    cases harc : M q b with
    | none =>
      refine .inl ⟨congrArg Exit.halt (exec_of_none harc), fun i => ?_⟩
      simp only [List.cons_append, walk, harc]
    | some arc =>
      obtain ⟨hs, hnext⟩ := hgoes q p b arc s (by omega) (hxs b List.mem_cons_self) harc h
      have hstep : M.exec f q p (b :: (bs ++ c :: ys)) s =
          M.exec f arc.target (p + 1) (bs ++ c :: ys) (perform f arc.actions p s) := exec_of_goes harc hs
      have hpos : p + (bs.length + 1) = p + 1 + bs.length := by omega
      rw [List.cons_append, hstep, List.length_cons, hpos]
      rcases ih (fun b' hb' => hxs b' (List.mem_cons_of_mem _ hb')) (by omega) hnext with ⟨herr, hwalk⟩ | hrest
      · refine .inl ⟨herr, fun i => ?_⟩
        obtain ⟨target, as, stops⟩ := arc
        obtain rfl : stops = false := hs
        simp only [List.cons_append, walk, harc, hwalk, Option.map_none]
      · exact .inr hrest

end Automaton

end Infra
