import Mathlib.Algebra.Group.Nat.Defs
import Nemo.Container.ConcurrentLinkedDeque

/-!
# The iterators of the bulk pops

`innerPopFrontBulk` and `innerPopBackBulk` of `concurrent_linked_deque.h` with the iterators that they
walk, on `size_type` and `difference_type`. To walk out of the list, or to splice what ends before it
starts, has no result (`none`).

An iterator stays at its element when elements before it are spliced out. So it is given by the number
of elements from there to the end of the list.
-/

namespace Nemo

/-- A `std::list`, whose size fits in its `difference_type`. -/
structure StdList (α : Type) where
  toList : List α
  length_lt : toList.length < 2 ^ 63

namespace StdList

variable {α : Type}

/-- `queue_.begin()` -/
def first (queue : List α) : Nat := queue.length

/-- `queue_.end()` -/
def last : Nat := 0

/-- `std::advance` -/
def advance (queue : List α) (iter : Nat) (n : Int64) : Option Nat :=
  let iter := (iter : Int) - n.toInt
  if 0 ≤ iter ∧ iter ≤ queue.length then some iter.toNat else none

/-- `target.splice(target.begin(), queue_, from, to)`: the new `target`, and the new `queue_`. -/
def splice (target queue : List α) (start stop : Nat) : Option (List α × List α) :=
  if stop ≤ start ∧ start ≤ queue.length then
    let range := (queue.drop (queue.length - start)).take (start - stop)
    some (range ++ target, queue.take (queue.length - start) ++ queue.drop (queue.length - stop))
  else none

/-- `innerPopFrontBulk`, for an empty `target`. A list that has been moved from is empty. -/
def innerPopFrontBulk (n : UInt64) (queue : List α) : Option (List α × List α) :=
  let queSize := UInt64.ofNat queue.length
  if n ≥ queSize then some (queue, [])
  else
    let halfSize := queSize / 2
    if halfSize > n then do
      let iter ← advance queue (first queue) n.toInt64
      let (target, queue) ← splice [] queue (first queue) iter
      splice target queue (first queue) iter
    else do
      let iter ← advance queue last (-(queSize - n).toInt64)
      splice [] queue (first queue) iter

/-- `innerPopBackBulk`, for an empty `target`. -/
def innerPopBackBulk (n : UInt64) (queue : List α) : Option (List α × List α) :=
  let queSize := UInt64.ofNat queue.length
  if n ≥ queSize then some (queue, [])
  else
    let halfSize := queSize / 2
    if halfSize > n then do
      let iter ← advance queue last (-n.toInt64)
      splice [] queue iter last
    else do
      let iter ← advance queue (first queue) (queSize - n).toInt64
      splice [] queue iter last

def popFrontBulk (n : UInt64) (queue : StdList α) : Option (List α × List α) :=
  innerPopFrontBulk n queue.toList

def popBackBulk (n : UInt64) (queue : StdList α) : Option (List α × List α) :=
  innerPopBackBulk n queue.toList

/-! ## Walking and splicing -/

section

variable {queue : List α} {n : UInt64}

theorem toInt_toInt64 (h : n.toNat < 2 ^ 63) : n.toInt64.toInt = n.toNat := by
  rw [← UInt64.ofNat_toNat (x := n), UInt64.toInt64_ofNat', UInt64.ofNat_toNat]
  exact Int64.toInt_ofNat_of_lt h

theorem toInt_neg_toInt64 (h : n.toNat < 2 ^ 63) : (-n.toInt64).toInt = -n.toNat := by
  rw [← UInt64.ofNat_toNat (x := n), UInt64.toInt64_ofNat', UInt64.ofNat_toNat]
  exact Int64.toInt_neg_ofNat_of_le (Nat.le_of_lt h)

/-- Forwards from the first element. -/
theorem advance_first (hq : queue.length < 2 ^ 63) (h : n.toNat ≤ queue.length) :
    advance queue (first queue) n.toInt64 = some (queue.length - n.toNat) := by
  unfold advance first
  rw [toInt_toInt64 (Nat.lt_of_le_of_lt h hq)]
  dsimp only
  rw [if_pos (by omega), ← Int.ofNat_sub h, Int.toNat_natCast]

/-- Backwards from the end. -/
theorem advance_last (hq : queue.length < 2 ^ 63) (h : n.toNat ≤ queue.length) :
    advance queue last (-n.toInt64) = some n.toNat := by
  unfold advance last
  rw [toInt_neg_toInt64 (Nat.lt_of_le_of_lt h hq)]
  dsimp only
  rw [if_pos (by omega), Int.ofNat_zero, Int.zero_sub, Int.neg_neg, Int.toNat_natCast]

/-- The elements before an iterator. -/
theorem splice_first {k : Nat} (h : k ≤ queue.length) :
    splice [] queue (first queue) (queue.length - k) = some (queue.take k, queue.drop k) := by
  unfold splice first
  dsimp only
  rw [if_pos ⟨Nat.sub_le _ _, Nat.le_refl _⟩, Nat.sub_self, List.drop_zero, List.take_zero,
    List.nil_append, List.append_nil, Nat.sub_sub_self h]

/-- The elements from an iterator on. -/
theorem splice_last {k : Nat} (h : k ≤ queue.length) :
    splice [] queue k last = some (queue.drop (queue.length - k), queue.take (queue.length - k)) := by
  unfold splice last
  dsimp only
  rw [if_pos ⟨Nat.zero_le _, h⟩, Nat.sub_zero, Nat.sub_zero, List.drop_length, List.append_nil,
    List.append_nil, List.take_of_length_le]
  rw [List.length_drop]
  omega

/-- An empty range. -/
theorem splice_self (target : List α) : splice target queue (first queue) queue.length =
    some (target, queue) := by
  unfold splice first
  dsimp only
  rw [if_pos ⟨Nat.le_refl _, Nat.le_refl _⟩, Nat.sub_self, List.drop_zero, List.take_zero,
    List.nil_append, List.nil_append]

/-! ## The bulk pops -/

theorem toNat_size (hq : queue.length < 2 ^ 63) : (UInt64.ofNat queue.length).toNat = queue.length := by
  rw [UInt64.toNat_ofNat']
  omega

theorem toNat_size_sub (hq : queue.length < 2 ^ 63) (h : n.toNat ≤ queue.length) :
    (UInt64.ofNat queue.length - n).toNat = queue.length - n.toNat := by
  rw [← toNat_size hq] at h
  rw [UInt64.toNat_sub_of_le _ _ (UInt64.le_iff_toNat_le.mpr h), toNat_size hq]

/-- The iterators are those positions that `ConcurrentLinkedDeque.innerPopFrontBulk` cuts at. -/
theorem innerPopFrontBulk_eq (hq : queue.length < 2 ^ 63) :
    innerPopFrontBulk n queue = some (ConcurrentLinkedDeque.popFrontBulk n.toNat queue) := by
  have hsize := toNat_size hq
  rw [ConcurrentLinkedDeque.popFrontBulk_eq]
  unfold innerPopFrontBulk
  dsimp only
  split
  · next h =>
    rw [ge_iff_le, UInt64.le_iff_toNat_le, hsize] at h
    rw [List.take_of_length_le h, List.drop_eq_nil_of_le h]
  · next h =>
    rw [ge_iff_le, UInt64.le_iff_toNat_le, hsize, Nat.not_le] at h
    have hle := Nat.le_of_lt h
    split
    · -- the second splice finds nothing before its iterator
      rw [advance_first hq hle, Option.bind_eq_bind, Option.bind_some, splice_first hle,
        Option.bind_eq_bind, Option.bind_some, ← List.length_drop, splice_self]
    · have hrest := toNat_size_sub hq hle
      rw [advance_last hq (by omega), Option.bind_eq_bind, Option.bind_some, hrest, splice_first hle]

theorem innerPopBackBulk_eq (hq : queue.length < 2 ^ 63) :
    innerPopBackBulk n queue = some (ConcurrentLinkedDeque.popBackBulk n.toNat queue) := by
  have hsize := toNat_size hq
  rw [ConcurrentLinkedDeque.popBackBulk_eq]
  unfold innerPopBackBulk
  dsimp only
  split
  · next h =>
    rw [ge_iff_le, UInt64.le_iff_toNat_le, hsize] at h
    rw [Nat.sub_eq_zero_of_le h, List.drop_zero, List.take_zero]
  · next h =>
    rw [ge_iff_le, UInt64.le_iff_toNat_le, hsize, Nat.not_le] at h
    have hle := Nat.le_of_lt h
    split
    · rw [advance_last hq hle, Option.bind_eq_bind, Option.bind_some, splice_last hle]
    · have hrest := toNat_size_sub hq hle
      rw [advance_first hq (by omega), Option.bind_eq_bind, Option.bind_some, hrest,
        Nat.sub_sub_self hle, splice_last hle]

end

/-- **The bulk pops split the list exactly**, and a list is put together again from both of them. -/
theorem bulkPops_split (queue : StdList α) (n : UInt64) :
    popFrontBulk n queue = some (queue.toList.take (min n.toNat queue.toList.length),
      queue.toList.drop (min n.toNat queue.toList.length)) ∧
    popBackBulk n queue =
      some (queue.toList.drop (queue.toList.length - min n.toNat queue.toList.length),
        queue.toList.take (queue.toList.length - min n.toNat queue.toList.length)) ∧
    ∀ k : UInt64, ∃ front back, ∃ rest : StdList α, ∃ middle,
      popFrontBulk k queue = some (front, rest.toList) ∧
      popBackBulk n rest = some (back, middle) ∧
      front ++ middle ++ back = queue.toList := by
  have hfront (k : UInt64) : popFrontBulk k queue = some (queue.toList.take k.toNat,
      queue.toList.drop k.toNat) :=
    (innerPopFrontBulk_eq queue.length_lt).trans
      (congrArg some (ConcurrentLinkedDeque.popFrontBulk_eq _ _))
  have hback (rest : StdList α) : popBackBulk n rest =
      some (rest.toList.drop (rest.toList.length - n.toNat),
        rest.toList.take (rest.toList.length - n.toNat)) :=
    (innerPopBackBulk_eq rest.length_lt).trans
      (congrArg some (ConcurrentLinkedDeque.popBackBulk_eq _ _))
  refine ⟨?_, ?_, fun k => ?_⟩
  · rw [hfront, ← List.take_eq_take_min, ← List.drop_eq_drop_min]
  · rw [hback, show queue.toList.length - min n.toNat queue.toList.length =
      queue.toList.length - n.toNat by omega]
  · have hlen : (queue.toList.drop k.toNat).length < 2 ^ 63 := by
      rw [List.length_drop]
      exact Nat.lt_of_le_of_lt (Nat.sub_le _ _) queue.length_lt
    refine ⟨_, _, ⟨queue.toList.drop k.toNat, hlen⟩, _, hfront k, hback _, ?_⟩
    rw [List.append_assoc, List.take_append_drop, List.take_append_drop]

end StdList

end Nemo
