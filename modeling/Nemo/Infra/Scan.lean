import Nemo.Infra.Automaton

/-!
# Runs that collect

The state of a run is a pair: marks, and the list of what has been collected. If every action puts what it
collects behind the list, and does not look at it, a run over a text that comes in pieces is put
together from the runs over the pieces.
-/

namespace Infra.Automaton

variable {Q A β μ τ : Type} {M : Automaton Q A β} {f : A → Nat → μ × List τ → μ × List τ}

/-- What an action collects comes behind what is there. -/
def Appends (f : A → Nat → μ × List τ → μ × List τ) : Prop :=
  ∀ a p m ts, f a p (m, ts) = ((f a p (m, [])).1, ts ++ (f a p (m, [])).2)

namespace Appends

variable (h : Appends f)
include h

theorem perform (as : List A) (p : Nat) (m : μ) (ts : List τ) :
    perform f as p (m, ts) =
      ((Automaton.perform f as p (m, [])).1, ts ++ (Automaton.perform f as p (m, [])).2) := by
  induction as generalizing m ts with
  | nil => exact congrArg (m, ·) (List.append_nil ts).symm
  | cons a as ih =>
    show Automaton.perform f as p (f a p (m, ts)) = ((Automaton.perform f as p (f a p (m, []))).1,
      ts ++ (Automaton.perform f as p (f a p (m, []))).2)
    rw [h a p m ts]
    obtain ⟨m', new⟩ := f a p (m, [])
    rw [ih m' (ts ++ new), ih m' new, List.append_assoc]

/-- A run with a list that is not empty puts what it collects behind the list. -/
theorem exec (q : Q) (p : Nat) (xs : List β) (m : μ) (ts : List τ) :
    M.exec f q p xs (m, ts) =
      ⟨(M.exec f q p xs (m, [])).halt, (M.exec f q p xs (m, [])).state, (M.exec f q p xs (m, [])).pos,
        ((M.exec f q p xs (m, [])).acc.1, ts ++ (M.exec f q p xs (m, [])).acc.2)⟩ := by
  induction xs generalizing q p m ts with
  | nil =>
    show (⟨_, _, _, (m, ts)⟩ : Exit Q (μ × List τ)) = ⟨_, _, _, (m, ts ++ [])⟩
    rw [List.append_nil]
    rfl
  | cons b bs ih =>
    cases ha : M q b with
    | none =>
      rw [exec_of_none ha, exec_of_none ha]
      dsimp only
      rw [List.append_nil]
    | some arc =>
      have hperform := h.perform arc.actions p m ts
      cases hs : arc.stops with
      | true => rw [exec_of_stops ha hs, exec_of_stops ha hs, hperform]
      | false =>
        rw [exec_of_goes ha hs, exec_of_goes ha hs, hperform]
        obtain ⟨m', new⟩ := Automaton.perform f arc.actions p (m, [])
        rw [ih arc.target (p + 1) m' (ts ++ new), ih arc.target (p + 1) m' new, List.append_assoc]

/-- A run that has used up its input goes on with what follows. -/
theorem exec_append {q q' : Q} {p p' : Nat} {xs : List β} {m m' : μ} {ts : List τ}
    (hxs : M.exec f q p xs (m, []) = ⟨.input, q', p', (m', ts)⟩) (ys : List β) :
    M.exec f q p (xs ++ ys) (m, []) =
      ⟨(M.exec f q' p' ys (m', [])).halt, (M.exec f q' p' ys (m', [])).state,
        (M.exec f q' p' ys (m', [])).pos,
        ((M.exec f q' p' ys (m', [])).acc.1, ts ++ (M.exec f q' p' ys (m', [])).acc.2)⟩ := by
  rw [exec_append_of_input (by rw [hxs]), hxs]
  exact h.exec q' p' ys m' ts

/-- What has been collected stays. -/
theorem exec_prefix {q : Q} {p : Nat} {xs : List β} {m : μ}
    (hxs : (M.exec f q p xs (m, [])).halt = .input) (ys : List β) :
    ∃ new, (M.exec f q p (xs ++ ys) (m, [])).acc.2 = (M.exec f q p xs (m, [])).acc.2 ++ new := by
  have hexit : M.exec f q p xs (m, []) = ⟨.input, (M.exec f q p xs (m, [])).state,
      (M.exec f q p xs (m, [])).pos, (M.exec f q p xs (m, [])).acc⟩ := by
    rw [← hxs]
  rw [h.exec_append hexit]
  exact ⟨_, rfl⟩

end Appends

section

variable {σ : Type} {g : A → Nat → σ → σ} {q : Q} {p : Nat} {s : σ}

theorem exec_pos_append {xs : List β} (hxs : (M.exec g q p xs s).halt = .input) (ys : List β) :
    p + xs.length ≤ (M.exec g q p (xs ++ ys) s).pos ∧
      (M.exec g q p (xs ++ ys) s).pos ≤ p + (xs ++ ys).length := by
  have hpos := (exec_pos M g q p xs s).2.2 hxs
  have hle := (exec_pos M g q p (xs ++ ys) s).2.1
  have hge := (exec_pos M g (M.exec g q p xs s).state (M.exec g q p xs s).pos ys
    (M.exec g q p xs s).acc).1
  rw [exec_append_of_input hxs ys] at hle ⊢
  exact ⟨by omega, hle⟩

/-- The piece in which a run stops. -/
theorem exists_stop (pre pieces : List (List β)) (hpre : (M.exec g q p pre.flatten s).halt = .input)
    (h : (M.exec g q p (pre ++ pieces).flatten s).halt = .stop) :
    ∃ xs piece rest, pieces = xs ++ piece :: rest ∧
      (M.exec g q p (pre ++ xs).flatten s).halt = .input ∧
      M.exec g q p ((pre ++ xs).flatten ++ piece) s = M.exec g q p (pre ++ pieces).flatten s := by
  induction pieces generalizing pre with
  | nil =>
    rw [List.append_nil, hpre] at h
    cases h
  | cons piece pieces ih =>
    have hflat : (pre ++ piece :: pieces).flatten = pre.flatten ++ piece ++ pieces.flatten := by simp
    have hsnoc : (pre ++ [piece]).flatten = pre.flatten ++ piece := by simp
    have happend : pre ++ piece :: pieces = pre ++ [piece] ++ pieces := by simp
    by_cases hs : (M.exec g q p (pre.flatten ++ piece) s).halt = .input
    · rw [happend] at h
      obtain ⟨xs, piece', rest, rfl, hxs, hstop⟩ := ih _ (hsnoc ▸ hs) h
      refine ⟨piece :: xs, piece', rest, rfl, ?_, ?_⟩
      · rw [List.append_cons]
        exact hxs
      · rw [List.append_cons, happend]
        exact hstop
    · refine ⟨[], piece, pieces, rfl, by rwa [List.append_nil], ?_⟩
      rw [List.append_nil, hflat]
      exact (exec_append_of_halt hs _).symm

end

end Infra.Automaton
