import Mathlib.Logic.Function.Basic
import Mathlib.Data.Option.Basic

/-!
# Labelled transition systems with a partial step function

A system is an initial state and a step function `σ → α → Option σ`, where `none` means that
the action is not enabled. The function is executable, so a run is a list of actions that can be
evaluated (`Lts.run`, `Lts.runBy`), and it is deterministic once the action is named: all nondeterminism is in the
choice of the actions.

## Conditioned reachability

`Lts.ReachableBy P` holds of the states reached by steps that all meet a condition `P` on the
state before the step and the action. `Lts.Reachable` is the unconditioned case. The induction
rules (`ReachableBy.invariant`, `ReachableBy.invariant_of`) are stated once here, and so is the
rule for a system that maps to another one (`ReachableBy.of_stutter`).
-/

namespace Infra

/-- A labelled transition system: an initial state and a partial step function. -/
structure Lts (σ α : Type) where
  init : σ
  step : σ → α → Option σ

namespace Lts

variable {σ α : Type} (M : Lts σ α)

/-- Runs a list of actions. `none` if some action is not enabled, or does not meet `P`, when its
turn comes. -/
def runBy (P : σ → α → Prop) [∀ s a, Decidable (P s a)] : σ → List α → Option σ
  | s, [] => some s
  | s, a :: as => if P s a then (M.step s a).bind fun s' => runBy P s' as else none

/-- Runs a list of actions without a condition on them. -/
def run : σ → List α → Option σ := M.runBy fun _ _ => True

theorem run_cons (s : σ) (a : α) (as : List α) :
    M.run s (a :: as) = (M.step s a).bind fun s' => M.run s' as := by
  rw [run, runBy, if_pos trivial]

/-- States reached by steps that all meet `P`. -/
inductive ReachableBy (P : σ → α → Prop) : σ → Prop
  | init : ReachableBy P M.init
  | step {s s' : σ} {a : α} (h : ReachableBy P s) (hp : P s a) (hs : M.step s a = some s') :
      ReachableBy P s'

/-- Reachable by any steps at all. -/
def Reachable (s : σ) : Prop := M.ReachableBy (fun _ _ => True) s

variable {M}

/-- A weaker condition reaches more. -/
theorem ReachableBy.mono {P Q : σ → α → Prop} {s : σ} (h : M.ReachableBy P s)
    (hpq : ∀ s a, P s a → Q s a) : M.ReachableBy Q s := by
  induction h with
  | init => exact .init
  | step _ hp hs ih => exact .step ih (hpq _ _ hp) hs

/--
**The invariant rule.** What holds initially, and is preserved by every step that meets `P`,
holds of every state reached by such steps.
-/
theorem ReachableBy.invariant {P : σ → α → Prop} {I : σ → Prop} (h0 : I M.init)
    (hstep : ∀ s a s', I s → P s a → M.step s a = some s' → I s') {s : σ}
    (h : M.ReachableBy P s) : I s := by
  induction h with
  | init => exact h0
  | step _ hp hs ih => exact hstep _ _ _ ih hp hs

/-- The invariant rule, with another invariant `J` already known to hold along the run. -/
theorem ReachableBy.invariant_of {P : σ → α → Prop} {I J : σ → Prop}
    (hJ : ∀ s, M.ReachableBy P s → J s) (h0 : I M.init)
    (hstep : ∀ s a s', J s → I s → P s a → M.step s a = some s' → I s') {s : σ}
    (h : M.ReachableBy P s) : I s := by
  induction h with
  | init => exact h0
  | step h hp hs ih => exact hstep _ _ _ (hJ _ h) ih hp hs

/--
**The stuttering rule.** A map that takes every step that meets `Q` to no step at all, or to a step
that meets `P`, takes reachable states to reachable states.
-/
theorem ReachableBy.of_stutter {τ β : Type} {N : Lts τ β} {P : σ → α → Prop} {Q : τ → β → Prop}
    (f : τ → σ) (h0 : f N.init = M.init)
    (hstep : ∀ x b y, Q x b → N.step x b = some y →
      f y = f x ∨ ∃ a, P (f x) a ∧ M.step (f x) a = some (f y)) {x : τ}
    (h : N.ReachableBy Q x) : M.ReachableBy P (f x) := by
  refine h.invariant (I := fun x => M.ReachableBy P (f x)) (h0 ▸ .init) fun x b y hx hq hs => ?_
  rcases hstep x b y hq hs with he | ⟨a, hp, ha⟩
  · exact he ▸ hx
  · exact .step hx hp ha

/-- A run from a reachable state, all of whose steps meet `P`, ends in a reachable state. -/
theorem ReachableBy.of_runBy {P : σ → α → Prop} [∀ s a, Decidable (P s a)] :
    ∀ {as : List α} {s t : σ}, M.ReachableBy P s → M.runBy P s as = some t → M.ReachableBy P t
  | [], s, t, h, hr => by
    rw [runBy, Option.some.injEq] at hr
    exact hr ▸ h
  | a :: as, s, t, h, hr => by
    rw [runBy] at hr
    split at hr
    · next hp =>
      rw [Option.bind_eq_some_iff] at hr
      obtain ⟨s', hs, hr⟩ := hr
      exact of_runBy (.step h hp hs) hr
    · cases hr

/-- A run from the initial state ends in a reachable state. -/
theorem reachable_of_run {as : List α} {t : σ} (h : M.run M.init as = some t) : M.Reachable t :=
  ReachableBy.of_runBy .init h

end Lts

end Infra
