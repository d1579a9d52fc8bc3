import Mathlib.Data.List.Basic

/-!
# Slices of a list that grows

`slice xs i j` is the part of `xs` from `i` up to `j`. `Spans P xs rs` says that the slices named by
`rs` lie in `xs` and hold only elements with `P`; the lemmas say what becomes of them when the list
grows at its end.
-/

namespace Infra

variable {α : Type}

/-- The elements at the positions `i`, …, `j - 1`. -/
def slice (xs : List α) (i j : Nat) : List α := (xs.drop i).take (j - i)

theorem slice_self (xs : List α) (i : Nat) : slice xs i i = [] := by
  rw [slice, Nat.sub_self, List.take_zero]

theorem length_slice {xs : List α} {i j : Nat} (h : j ≤ xs.length) :
    (slice xs i j).length = j - i := by
  rw [slice, List.length_take, List.length_drop]
  omega

theorem slice_append_left {xs : List α} {i j : Nat} (h : j ≤ xs.length) (ys : List α) :
    slice (xs ++ ys) i j = slice xs i j := by
  by_cases hi : i ≤ j
  · rw [slice, slice, List.drop_append_of_le_length (by omega), List.take_append_of_le_length]
    rw [List.length_drop]
    omega
  · have h0 : j - i = 0 := by omega
    rw [slice, slice, h0, List.take_zero, List.take_zero]

/-- Two slices of which the second starts where the first ends. -/
theorem slice_append_slice {xs : List α} {i j k : Nat} (hij : i ≤ j) (hjk : j ≤ k) :
    slice xs i j ++ slice xs j k = slice xs i k := by
  have hdrop : xs.drop j = (xs.drop i).drop (j - i) := by
    rw [List.drop_drop]
    congr 1
    omega
  have hsub : k - i = (j - i) + (k - j) := by omega
  rw [slice, slice, slice, hdrop, hsub, List.take_add]

theorem slice_snoc {xs : List α} {i : Nat} (h : i ≤ xs.length) (a : α) :
    slice (xs ++ [a]) i (xs.length + 1) = slice xs i xs.length ++ [a] := by
  rw [slice, slice, List.drop_append_of_le_length h, List.take_of_length_le, List.take_of_length_le]
  · exact Nat.le_of_eq List.length_drop
  · rw [List.length_append, List.length_drop, List.length_singleton]
    omega

/-- A slice that lies in one piece of the list. -/
theorem slice_append_right (xs : List α) {s : List α} {i j : Nat} (h : j ≤ s.length)
    (ys : List α) : slice (xs ++ (s ++ ys)) (xs.length + i) (xs.length + j) = slice s i j := by
  have hdrop : (xs ++ (s ++ ys)).drop (xs.length + i) = (s ++ ys).drop i := by
    rw [← List.drop_drop, List.drop_left]
  have hsub : xs.length + j - (xs.length + i) = j - i := by omega
  rw [slice, hdrop, hsub]
  exact slice_append_left h ys

/-- The slices `rs` of `xs` hold only elements with `P`. -/
def Spans (P : α → Prop) (xs : List α) (rs : List (Nat × Nat)) : Prop :=
  ∀ r ∈ rs, r.1 ≤ r.2 ∧ r.2 ≤ xs.length ∧ ∀ a ∈ slice xs r.1 r.2, P a

namespace Spans

variable {P : α → Prop} {xs : List α} {rs : List (Nat × Nat)}

theorem nil : Spans P xs [] := nofun

/-- The list grows behind the slices. -/
theorem snoc (h : Spans P xs rs) (a : α) : Spans P (xs ++ [a]) rs := by
  intro r hr
  obtain ⟨h1, h2, h3⟩ := h r hr
  refine ⟨h1, by rw [List.length_append]; omega, ?_⟩
  rw [slice_append_left h2]
  exact h3

/-- One more slice. -/
theorem add (h : Spans P xs rs) {i j : Nat} (hij : i ≤ j) (hj : j ≤ xs.length)
    (hP : ∀ a ∈ slice xs i j, P a) : Spans P xs (rs ++ [(i, j)]) := by
  intro r hr
  rcases List.mem_append.mp hr with hr | hr
  · exact h r hr
  · rw [List.mem_singleton] at hr
    subst hr
    exact ⟨hij, hj, hP⟩

theorem left {rs' : List (Nat × Nat)} (h : Spans P xs (rs ++ rs')) : Spans P xs rs :=
  fun r hr => h r (List.mem_append_left _ hr)

/-- The last slice grows with the list. -/
theorem grow {i : Nat} (h : Spans P xs (rs ++ [(i, xs.length)])) {a : α} (ha : P a) :
    Spans P (xs ++ [a]) (rs ++ [(i, xs.length + 1)]) := by
  obtain ⟨h1, -, h3⟩ := h (i, xs.length) (List.mem_append_right _ List.mem_cons_self)
  refine (h.left.snoc a).add (by omega) (by simp) ?_
  rw [slice_snoc h1]
  intro c hc
  rcases List.mem_append.mp hc with hc | hc
  · exact h3 c hc
  · rw [List.mem_singleton] at hc
    rwa [hc]

end Spans

end Infra
