import Mathlib.Data.List.Basic

/-!
# Callbacks that write

A parser calls callbacks one after another. Each of them writes into a record, or sets an error, which
stays; some throw. Without an error the record is the fold of what the callbacks write, and a member
of it is what was written last.
-/

namespace Infra

variable {R α ε : Type}

/-- What a callback does: one that is accepted writes, one that is not throws or sets an error. -/
structure Callbacks (ok : ε) (on : R → α × ε → Option (α × ε)) (accepts : R → Bool) (fill : R → α → α) :
    Prop where
  accepted : ∀ r a e, accepts r = true → on r (a, e) = some (fill r a, e)
  refused : ∀ r x x', accepts r = false → on r x = some x' → x'.2 ≠ ok

namespace Callbacks

variable {ok : ε} {on : R → α × ε → Option (α × ε)} {accepts : R → Bool} {fill : R → α → α}
  (h : Callbacks ok on accepts fill)
include h

/-- An error stays. -/
theorem error {r : R} {x x' : α × ε} (hx : on r x = some x') (hne : x.2 ≠ ok) : x'.2 ≠ ok := by
  cases hr : accepts r with
  | true =>
    rw [h.accepted r x.1 x.2 hr] at hx
    cases hx
    exact hne
  | false => exact h.refused r x x' hr hx

theorem error_all {rs : List R} {x x' : α × ε} (hx : rs.foldlM (fun x r => on r x) x = some x')
    (hne : x.2 ≠ ok) : x'.2 ≠ ok := by
  induction rs generalizing x with
  | nil =>
    cases hx
    exact hne
  | cons r rs ih =>
    rw [List.foldlM_cons, Option.bind_eq_bind, Option.bind_eq_some_iff] at hx
    obtain ⟨x₁, h₁, h₂⟩ := hx
    exact ih h₂ (h.error h₁ hne)

theorem all_of_accepts {rs : List R} {a : α} {e : ε} (hrs : ∀ r ∈ rs, accepts r = true) :
    rs.foldlM (fun x r => on r x) (a, e) = some (rs.foldl (fun a r => fill r a) a, e) := by
  induction rs generalizing a with
  | nil => rfl
  | cons r rs ih =>
    rw [List.foldlM_cons, h.accepted r a e (hrs r List.mem_cons_self)]
    exact ih fun r' hr' => hrs r' (List.mem_cons_of_mem _ hr')

/-- The callbacks leave no error only if all are accepted. -/
theorem accepts_of_all {rs : List R} {a : α} {x : α × ε}
    (hx : rs.foldlM (fun x r => on r x) (a, ok) = some x) (hok : x.2 = ok) :
    ∀ r ∈ rs, accepts r = true := by
  induction rs generalizing a with
  | nil => nofun
  | cons r rs ih =>
    rw [List.foldlM_cons, Option.bind_eq_bind, Option.bind_eq_some_iff] at hx
    obtain ⟨x₁, h₁, h₂⟩ := hx
    cases hr : accepts r with
    | false => exact absurd hok (h.error_all h₂ (h.refused r _ x₁ hr h₁))
    | true =>
      rw [h.accepted r a ok hr, Option.some.injEq] at h₁
      subst h₁
      intro r' hr'
      rcases List.mem_cons.mp hr' with rfl | hr'
      · exact hr
      · exact ih h₂ r' hr'

end Callbacks

/-! ## Members -/

section

variable {γ : Type} {fill : R → α → α} {π : α → γ}

/-- A member is what the last callback for it has written. -/
theorem foldl_last {u : R → Option γ} (hfill : ∀ r a, π (fill r a) = (u r).getD (π a)) (rs : List R)
    (a : α) :
    π (rs.foldl (fun a r => fill r a) a) = (rs.filterMap u).getLast?.getD (π a) := by
  induction rs generalizing a with
  | nil => rfl
  | cons r rs ih =>
    rw [List.foldl_cons, ih, hfill]
    cases hu : u r with
    | none => rw [List.filterMap_cons_none hu, Option.getD_none]
    | some x =>
      rw [List.filterMap_cons_some hu, Option.getD_some, List.getLast?_cons, Option.getD_some]

/-- A member that callbacks add to is what they add, one after the other. -/
theorem foldl_adds {δ : Type} {u : R → Option δ} {add : γ → δ → γ}
    (hfill : ∀ r a, π (fill r a) = (u r).toList.foldl add (π a)) (rs : List R) (a : α) :
    π (rs.foldl (fun a r => fill r a) a) = (rs.filterMap u).foldl add (π a) := by
  induction rs generalizing a with
  | nil => rfl
  | cons r rs ih =>
    rw [List.foldl_cons, ih, hfill]
    cases hu : u r with
    | none => rw [List.filterMap_cons_none hu]; rfl
    | some x => rw [List.filterMap_cons_some hu]; rfl

/-- A member that no callback writes stays. -/
theorem foldl_keeps (hfill : ∀ r a, π (fill r a) = π a) (rs : List R) (a : α) :
    π (rs.foldl (fun a r => fill r a) a) = π a := by
  induction rs generalizing a with
  | nil => rfl
  | cons r rs ih => rw [List.foldl_cons, ih, hfill]

end

end Infra
