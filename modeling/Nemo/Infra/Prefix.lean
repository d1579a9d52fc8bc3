import Mathlib.Algebra.Group.Nat.Defs
import Mathlib.Logic.Basic

/-!
# The first bits of a word

`KeepsFirst p a fill r`: the word `r` begins with the first `p` bits of `a` and goes on with `fill`.
`lowBits w n` is the word in which the last `n` bits are set.
-/

namespace Infra.Prefix

variable {w : Nat}

def KeepsFirst (p : Nat) (a : BitVec w) (fill : Bool) (r : BitVec w) : Prop :=
  ∀ i < w, r.getMsbD i = if i < p then a.getMsbD i else fill

def lowBits (w n : Nat) : BitVec w := BitVec.ofNat w (2 ^ n - 1)

theorem getLsbD_lowBits (n : Nat) {i : Nat} (hi : i < w) : (lowBits w n).getLsbD i = decide (i < n) := by
  rw [lowBits, BitVec.getLsbD_ofNat, decide_eq_true hi, Bool.true_and, Nat.testBit_two_pow_sub_one]

/-- The first `p` bits are not set. -/
theorem getMsbD_lowBits {p : Nat} (hp : p ≤ w) {i : Nat} (hi : i < w) :
    (lowBits w (w - p)).getMsbD i = decide (¬ i < p) := by
  have hlow : w - 1 - i < w := by omega
  rw [BitVec.getMsbD_eq_getLsbD, decide_eq_true hi, Bool.true_and, getLsbD_lowBits _ hlow]
  exact decide_eq_decide.mpr (by omega)

variable {p : Nat}

/-- An `or` with the last bits sets them. -/
theorem keepsFirst_or (hp : p ≤ w) (a : BitVec w) : KeepsFirst p a true (a ||| lowBits w (w - p)) := by
  intro i hi
  rw [BitVec.getMsbD_or, getMsbD_lowBits hp hi]
  by_cases h : i < p
  · rw [if_pos h, decide_eq_false (not_not.mpr h), Bool.or_false]
  · rw [if_neg h, decide_eq_true h, Bool.or_true]

/-- The word in which the first `p` bits are set. -/
theorem keepsFirst_not (hp : p ≤ w) : KeepsFirst p (BitVec.allOnes w) false (~~~lowBits w (w - p)) := by
  intro i hi
  rw [BitVec.getMsbD_not, getMsbD_lowBits hp hi, BitVec.getMsbD_allOnes, decide_eq_true hi]
  by_cases h : i < p
  · rw [if_pos h, decide_eq_false (not_not.mpr h)]
    rfl
  · rw [if_neg h, decide_eq_true h]
    rfl

/-- An `and` with the last bits keeps the wrong ones: it is right for zero only. -/
theorem keepsFirst_and_iff (hp : p ≤ w) (a : BitVec w) :
    KeepsFirst p a false (a &&& lowBits w (w - p)) ↔ a = 0 := by
  constructor
  · intro h
    refine BitVec.eq_of_getMsbD_eq fun i hi => ?_
    have hbit := h i hi
    rw [BitVec.getMsbD_and, getMsbD_lowBits hp hi] at hbit
    show a.getMsbD i = (0#w).getMsbD i
    rw [BitVec.getMsbD_zero]
    by_cases hip : i < p
    · rw [if_pos hip, decide_eq_false (not_not.mpr hip), Bool.and_false] at hbit
      exact hbit.symm
    · rw [if_neg hip, decide_eq_true hip, Bool.and_true] at hbit
      exact hbit
  · rintro rfl i _
    show ((0#w) &&& lowBits w (w - p)).getMsbD i = if i < p then (0#w).getMsbD i else false
    rw [BitVec.zero_and, BitVec.getMsbD_zero, ite_self]

/-- Network and broadcast address follow from the mask. -/
theorem KeepsFirst.eq_and {a r mask : BitVec w} (h : KeepsFirst p a false r)
    (hmask : KeepsFirst p (BitVec.allOnes w) false mask) : r = a &&& mask := by
  refine BitVec.eq_of_getMsbD_eq fun i hi => ?_
  rw [h i hi, BitVec.getMsbD_and, hmask i hi, BitVec.getMsbD_allOnes, decide_eq_true hi]
  split
  · rw [Bool.and_true]
  · rw [Bool.and_false]

theorem KeepsFirst.eq_or_not {a r s mask : BitVec w} (h : KeepsFirst p a true s) (hr : KeepsFirst p a false r)
    (hmask : KeepsFirst p (BitVec.allOnes w) false mask) : s = r ||| ~~~mask := by
  refine BitVec.eq_of_getMsbD_eq fun i hi => ?_
  rw [h i hi, BitVec.getMsbD_or, BitVec.getMsbD_not, hr i hi, hmask i hi, BitVec.getMsbD_allOnes, decide_eq_true hi]
  split
  · rw [Bool.not_true, Bool.and_false, Bool.or_false]
  · rfl

end Infra.Prefix
