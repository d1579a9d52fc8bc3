import Mathlib.Algebra.BigOperators.Group.List.Lemmas
import Mathlib.Algebra.GroupWithZero.Nat
import Mathlib.Algebra.Order.Group.Nat
import Nemo.Infra.Slice

/-!
# Lists cut into blocks of one length

A chain of blocks, each of length `B`, and the list that it spells. `overwrite` puts elements into
a block from a position on, as a `memcpy` into it does.
-/

namespace Infra

variable {α : Type} {B : Nat}

/-- Every block has the length `B`. -/
def Blocks (B : Nat) (xss : List (List α)) : Prop := ∀ xs ∈ xss, xs.length = B

namespace Blocks

variable {xs : List α} {xss yss : List (List α)}

theorem nil : Blocks B ([] : List (List α)) := nofun

theorem head (h : Blocks B (xs :: xss)) : xs.length = B := h _ List.mem_cons_self

theorem tail (h : Blocks B (xs :: xss)) : Blocks B xss :=
  fun ys hy => h ys (List.mem_cons_of_mem _ hy)

theorem cons (hx : xs.length = B) (h : Blocks B xss) : Blocks B (xs :: xss) := by
  intro ys hy
  rcases List.mem_cons.mp hy with rfl | hy
  · exact hx
  · exact h ys hy

theorem append (hx : Blocks B xss) (hy : Blocks B yss) : Blocks B (xss ++ yss) := by
  intro zs hz
  rcases List.mem_append.mp hz with hz | hz
  · exact hx zs hz
  · exact hy zs hz

theorem drop (h : Blocks B xss) (i : Nat) : Blocks B (xss.drop i) :=
  fun ys hy => h ys (List.mem_of_mem_drop hy)

theorem take (h : Blocks B xss) (i : Nat) : Blocks B (xss.take i) :=
  fun ys hy => h ys (List.mem_of_mem_take hy)

theorem length_flatten (h : Blocks B xss) : xss.flatten.length = xss.length * B := by
  induction xss with
  | nil => simp
  | cons xs xss ih =>
    rw [List.flatten_cons, List.length_append, ih h.tail, h.head, List.length_cons, Nat.succ_mul,
      Nat.add_comm]

/-- Dropping blocks drops a multiple of `B` elements. -/
theorem flatten_drop (h : Blocks B xss) (i : Nat) :
    (xss.drop i).flatten = xss.flatten.drop (i * B) := by
  induction i generalizing xss with
  | zero => simp
  | succ i ih =>
    cases xss with
    | nil => simp
    | cons xs xss =>
      have hlen : (i + 1) * B = xs.length + i * B := by
        rw [h.head, Nat.succ_mul, Nat.add_comm]
      rw [List.drop_succ_cons, ih h.tail, List.flatten_cons, hlen, ← List.drop_drop, List.drop_left]

end Blocks

/-- The block `xs` after `ys` was copied into it at the position `i`. -/
def overwrite (xs : List α) (i : Nat) (ys : List α) : List α :=
  xs.take i ++ ys ++ xs.drop (i + ys.length)

theorem length_overwrite {xs ys : List α} {i : Nat} (h : i + ys.length ≤ xs.length) :
    (overwrite xs i ys).length = xs.length := by
  rw [overwrite, List.length_append, List.length_append, List.length_take, List.length_drop]
  omega

theorem take_overwrite {xs ys : List α} {i : Nat} (h : i + ys.length ≤ xs.length) :
    (overwrite xs i ys).take (i + ys.length) = xs.take i ++ ys := by
  rw [overwrite]
  apply List.take_left'
  rw [List.length_append, List.length_take]
  omega

end Infra
