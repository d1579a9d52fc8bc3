import Mathlib.Data.List.Basic

/-!
# `ConcurrentLinkedDeque`

The `std::list` inside the deque is a `List`, and an iterator into it is a position.
Each operation takes the mutex once, so a model of it is one function on the list.
The bulk pops are written with the two directions from which the source walks to its iterator.
-/

namespace Nemo.ConcurrentLinkedDeque

variable {α : Type}

/--
`innerPopFrontBulk`: what goes to `target`, and what stays in `queue_`.

When the iterator is near the front the source splices twice. The first splice has already moved
everything before the iterator, so the second one moves the empty range.
-/
def innerPopFrontBulk (n : Nat) (queue : List α) : List α × List α :=
  let queSize := queue.length
  if n ≥ queSize then (queue, [])
  else
    let halfSize := queSize / 2
    if halfSize > n then
      let target := queue.take n
      let queue := queue.drop n
      (queue.take 0 ++ target, queue.drop 0)
    else
      let iter := queSize - (queSize - n)
      (queue.take iter, queue.drop iter)

/-- `innerPopBackBulk`: what goes to `target`, and what stays in `queue_`. -/
def innerPopBackBulk (n : Nat) (queue : List α) : List α × List α :=
  let queSize := queue.length
  if n ≥ queSize then (queue, [])
  else
    let halfSize := queSize / 2
    let iter := if halfSize > n then queSize - n else 0 + (queSize - n)
    (queue.drop iter, queue.take iter)

def popFrontBulk (n : Nat) (queue : List α) : List α × List α := innerPopFrontBulk n queue

def popBackBulk (n : Nat) (queue : List α) : List α × List α := innerPopBackBulk n queue

/-- `popAll` moves the whole list out. -/
def popAll (queue : List α) : List α × List α := (queue, [])

/-- The front bulk pop splits the list at `n`, whichever way the iterator was walked. -/
theorem popFrontBulk_eq (n : Nat) (queue : List α) :
    popFrontBulk n queue = (queue.take n, queue.drop n) := by
  unfold popFrontBulk innerPopFrontBulk
  dsimp only
  split
  · next h => rw [List.take_of_length_le h, List.drop_eq_nil_of_le h]
  · next h =>
    split
    · simp
    · rw [show queue.length - (queue.length - n) = n by omega]

/-- The back bulk pop splits the list `n` before its end. -/
theorem popBackBulk_eq (n : Nat) (queue : List α) :
    popBackBulk n queue = (queue.drop (queue.length - n), queue.take (queue.length - n)) := by
  unfold popBackBulk innerPopBackBulk
  dsimp only
  split
  · next h => rw [show queue.length - n = 0 by omega, List.drop_zero, List.take_zero]
  · split
    · rfl
    · rw [Nat.zero_add]

/-- A front bulk pop neither loses nor repeats an element. -/
theorem popFrontBulk_append (n : Nat) (queue : List α) :
    (popFrontBulk n queue).1 ++ (popFrontBulk n queue).2 = queue := by
  rw [popFrontBulk_eq]
  exact List.take_append_drop n queue

/-- Nor does a back bulk pop. -/
theorem popBackBulk_append (n : Nat) (queue : List α) :
    (popBackBulk n queue).2 ++ (popBackBulk n queue).1 = queue := by
  rw [popBackBulk_eq]
  exact List.take_append_drop _ queue

end Nemo.ConcurrentLinkedDeque
