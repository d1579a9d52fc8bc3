import Mathlib.Logic.Basic

/-!
# Sets of flags

A bit vector as a set of flags: whether one is within another, and whether two have a flag in common.
Both are decided by one `and`, and proved flag by flag.
-/

namespace Infra.Mask

variable {w : Nat} {a b c : BitVec w}

/-- All flags of `a` are flags of `b`. -/
def Within (a b : BitVec w) : Prop := a &&& b = a

/-- `a` and `b` have a flag in common. -/
def Meets (a b : BitVec w) : Prop := a &&& b ≠ 0

instance (a b : BitVec w) : Decidable (Within a b) := inferInstanceAs (Decidable (_ = _))

instance (a b : BitVec w) : Decidable (Meets a b) := inferInstanceAs (Decidable (_ ≠ _))

theorem within_iff : Within a b ↔ ∀ i, a.getLsbD i = true → b.getLsbD i = true := by
  constructor
  · intro h i hi
    rw [← h, BitVec.getLsbD_and, Bool.and_eq_true] at hi
    exact hi.2
  · intro h
    refine BitVec.eq_of_getLsbD_eq fun i _ => ?_
    rw [BitVec.getLsbD_and]
    cases ha : a.getLsbD i with
    | false => rfl
    | true => rw [h i ha, Bool.and_self]

theorem eq_zero_iff : a = 0 ↔ ∀ i, a.getLsbD i = false := by
  constructor
  · rintro rfl i
    exact BitVec.getLsbD_zero
  · intro h
    refine BitVec.eq_of_getLsbD_eq fun i _ => ?_
    rw [h i]
    exact BitVec.getLsbD_zero.symm

theorem meets_iff : Meets a b ↔ ∃ i, a.getLsbD i = true ∧ b.getLsbD i = true := by
  have hall : a &&& b = 0 ↔ ∀ i, ¬ (a.getLsbD i = true ∧ b.getLsbD i = true) := by
    refine eq_zero_iff.trans (forall_congr' fun i => ?_)
    rw [BitVec.getLsbD_and, ← Bool.and_eq_true, Bool.not_eq_true]
  unfold Meets
  rw [ne_eq, hall, not_forall]
  exact exists_congr fun i => not_not

theorem Within.refl (a : BitVec w) : Within a a := BitVec.and_self

theorem Within.trans (h : Within a b) (h' : Within b c) : Within a c :=
  within_iff.mpr fun i hi => within_iff.mp h' i (within_iff.mp h i hi)

theorem zero_within (a : BitVec w) : Within 0 a := BitVec.zero_and

theorem within_or_left (a b : BitVec w) : Within a (a ||| b) :=
  within_iff.mpr fun i hi => by rw [BitVec.getLsbD_or, hi, Bool.true_or]

theorem within_or_right (a b : BitVec w) : Within b (a ||| b) :=
  within_iff.mpr fun i hi => by rw [BitVec.getLsbD_or, hi, Bool.or_true]

theorem or_within (ha : Within a c) (hb : Within b c) : Within (a ||| b) c :=
  within_iff.mpr fun i hi => by
    rw [BitVec.getLsbD_or, Bool.or_eq_true] at hi
    exact hi.elim (within_iff.mp ha i) (within_iff.mp hb i)

theorem Within.antisymm (h : Within a b) (h' : Within b a) : a = b := by
  rw [← h, BitVec.and_comm]
  exact h'

theorem Within.eq_zero (h : Within a 0) : a = 0 := h.antisymm (zero_within a)

/-- Flags that are there already change nothing. -/
theorem or_eq_left_iff : a ||| b = a ↔ Within b a := by
  constructor
  · intro h
    rw [← h]
    exact within_or_right a b
  · intro h
    exact (or_within (Within.refl a) h).antisymm (within_or_left a b)

/-- The new flags are all of them just if there was none. -/
theorem diff_eq_self_iff (h : Within a b) : b &&& ~~~a = b ↔ a = 0 := by
  constructor
  · intro e
    refine eq_zero_iff.mpr fun i => Bool.eq_false_iff.mpr fun hi => ?_
    have hb := within_iff.mp h i hi
    rw [← e, BitVec.getLsbD_and, BitVec.getLsbD_not, hi, Bool.not_true, Bool.and_false,
      Bool.and_false] at hb
    cases hb
  · rintro rfl
    show b &&& ~~~(0#w) = b
    rw [BitVec.not_zero, BitVec.and_allOnes]

end Infra.Mask
