import Mathlib.Data.List.Infix

/-!
# Patterns with a wildcard

A pattern is a list in which one symbol, the star, stands for any list. Every other symbol stands for
itself.
-/

namespace Infra.Glob

variable {α : Type} [DecidableEq α] (star : α)

/-- The pattern matches the whole list. -/
def accepts : List α → List α → Bool
  | [], xs => xs.isEmpty
  | p :: ps, xs =>
    if p = star then xs.tails.any (accepts ps)
    else
      match xs with
      | [] => false
      | x :: xs => x == p && accepts ps xs

example : accepts '*' "/nemo_*".toList "/nemo_echo".toList = true := by decide

variable {star}

/-- A pattern without a star matches itself alone. -/
theorem accepts_of_notMem {ps xs : List α} (h : star ∉ ps) : accepts star ps xs = true ↔ ps = xs := by
  induction ps generalizing xs with
  | nil => rw [accepts, List.isEmpty_iff, eq_comm]
  | cons p ps ih =>
    rw [List.mem_cons, not_or] at h
    obtain ⟨hp, hps⟩ := h
    cases xs with
    | nil => simp [accepts, Ne.symm hp]
    | cons x xs =>
      simp only [accepts, if_neg (Ne.symm hp), Bool.and_eq_true, beq_iff_eq, List.cons.injEq]
      rw [ih hps, eq_comm (a := x)]

end Infra.Glob
