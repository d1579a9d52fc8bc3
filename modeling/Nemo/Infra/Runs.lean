import Nemo.Infra.Lts

/-!
# Runs whose steps all meet a condition

`Lts.Meets P s as` says that every step of the run `as` from `s` meets `P` in the state it is taken
in. A run ends at an action that is not enabled.

Two conditions are compared along an invariant that lasts as long as the first of them is met:

* `meets_of` — if the first condition implies the second where the invariant holds, it does so for
  whole runs
* `meets_iff` — if the two agree where the invariant holds, the same runs meet them
-/

namespace Infra.Lts

variable {σ α : Type} (M : Lts σ α)

/-- Every step of the run meets `P`. -/
def Meets (P : σ → α → Prop) : σ → List α → Prop
  | _, [] => True
  | s, a :: as => ∀ s', M.step s a = some s' → P s a ∧ Meets P s' as

variable {M} {P Q : σ → α → Prop} {I : σ → Prop}

theorem meets_of (himp : ∀ s a s', I s → M.step s a = some s' → P s a → Q s a ∧ I s') :
    ∀ {as : List α} {s : σ}, I s → M.Meets P s as → M.Meets Q s as
  | [], _, _, _ => trivial
  | a :: as, s, hs, hmeets => by
    intro s' hstep
    obtain ⟨hp, hrest⟩ := hmeets s' hstep
    obtain ⟨hq, hs'⟩ := himp s a s' hs hstep hp
    exact ⟨hq, meets_of himp hs' hrest⟩

theorem meets_iff (hiff : ∀ s a s', I s → M.step s a = some s' → (P s a ↔ Q s a))
    (hnext : ∀ s a s', I s → M.step s a = some s' → P s a → I s') {as : List α} {s : σ} (hs : I s) :
    M.Meets P s as ↔ M.Meets Q s as := by
  constructor
  · refine meets_of (fun s a s' hs hstep hp => ?_) hs
    exact ⟨(hiff s a s' hs hstep).mp hp, hnext s a s' hs hstep hp⟩
  · refine meets_of (fun s a s' hs hstep hq => ?_) hs
    have hp := (hiff s a s' hs hstep).mpr hq
    exact ⟨hp, hnext s a s' hs hstep hp⟩

/-- The last step of a run. -/
theorem Meets.last {a : α} : ∀ {as : List α} {s t t' : σ}, M.Meets P s (as ++ [a]) →
    M.run s as = some t → M.step t a = some t' → P t a
  | [], s, t, t', hmeets, hrun, hstep => by
    rw [run, runBy, Option.some.injEq] at hrun
    subst hrun
    exact (hmeets t' hstep).1
  | b :: as, s, t, t', hmeets, hrun, hstep => by
    rw [run_cons, Option.bind_eq_some_iff] at hrun
    obtain ⟨s', hs', hrun⟩ := hrun
    exact (hmeets s' hs').2.last hrun hstep

end Infra.Lts
