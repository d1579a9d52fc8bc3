import Mathlib.Algebra.Order.Ring.Int

/-!
# Built-in integer types

A type is its width and whether it has a sign; its values are the integers in its range, so that a value cannot
be out of range. `convert` keeps a number that fits (`convert_of_inRange`) and else takes the one that is equal modulo
`2 ^ width`.

`/` and `%` truncate towards zero, and are computed in a type that is at least as wide as `int`. By a
constant of type `int` they are exact for every type (`quot_eq`, `rem_eq`).
-/

namespace Infra

/-- `bool` is the type of one bit without a sign, as long as nothing but `0` and `1` is converted to it. -/
structure IntegralType where
  width : Nat
  isSigned : Bool
  width_pos : 0 < width

namespace IntegralType

def int : IntegralType := ⟨32, true, by decide⟩

variable (T : IntegralType)

def min : Int := if T.isSigned then -2 ^ (T.width - 1) else 0

def max : Int := if T.isSigned then 2 ^ (T.width - 1) - 1 else 2 ^ T.width - 1

def InRange (x : Int) : Prop := T.min ≤ x ∧ x ≤ T.max

instance (x : Int) : Decidable (T.InRange x) := inferInstanceAs (Decidable (_ ∧ _))

/-- The values of a type. -/
def Value := { x : Int // T.InRange x }

def wrap (x : Int) : Int := if T.isSigned then x.bmod (2 ^ T.width) else x % 2 ^ T.width

theorem two_pow_width : (2 : Int) ^ T.width = 2 * 2 ^ (T.width - 1) := by
  rw [← Int.pow_succ', Nat.sub_add_cancel T.width_pos]

theorem two_pow_pos (n : Nat) : (0 : Int) < 2 ^ n := Int.pow_pos (by decide)

theorem inRange_wrap (x : Int) : T.InRange (T.wrap x) := by
  have hpow := T.two_pow_width
  have hpos := two_pow_pos T.width
  unfold InRange min max wrap
  cases T.isSigned with
  | true =>
    have hle := Int.le_bmod (x := x) (Nat.two_pow_pos T.width)
    have hlt := Int.bmod_lt (x := x) (Nat.two_pow_pos T.width)
    push_cast at hle hlt
    simp only [if_true]
    omega
  | false =>
    have hle := Int.emod_nonneg x hpos.ne'
    have hlt := Int.emod_lt_of_pos x hpos
    simp only [Bool.false_eq_true, if_false]
    omega

def convert (x : Int) : T.Value := ⟨T.wrap x, T.inRange_wrap x⟩

variable {T}

/-- A number that fits is kept. -/
theorem convert_of_inRange {x : Int} (h : T.InRange x) : (T.convert x).val = x := by
  have hpow := T.two_pow_width
  show T.wrap x = x
  unfold InRange min max at h
  unfold wrap
  cases hs : T.isSigned with
  | true =>
    simp only [hs, if_true] at h
    refine Int.bmod_eq_of_le ?_ ?_
    · push_cast
      omega
    · push_cast
      omega
  | false =>
    simp only [hs, Bool.false_eq_true, if_false] at h
    exact Int.emod_eq_of_lt h.1 (by omega)

theorem min_nonpos : T.min ≤ 0 := by
  have hpos := two_pow_pos (T.width - 1)
  unfold min
  split <;> omega

theorem max_nonneg : 0 ≤ T.max := by
  have hpow := T.two_pow_width
  have hpos := two_pow_pos (T.width - 1)
  unfold max
  split <;> omega

/-- What is between zero and a number in range is in range. -/
theorem InRange.of_between {x y : Int} (h : T.InRange x) (hy : 0 ≤ y ∧ y ≤ x ∨ x ≤ y ∧ y ≤ 0) :
    T.InRange y := by
  have hmin := T.min_nonpos
  have hmax := T.max_nonneg
  obtain ⟨hle, hge⟩ := h
  exact ⟨by omega, by omega⟩

/-! ## Division by a constant -/

variable (T)

/-- The type in which an expression of a value and a constant of type `int` is computed. -/
def common : IntegralType := if T.width < int.width then int else T

variable {T}

/-- `v / c` -/
def quot (v : T.Value) (c : int.Value) : Int := (T.common.convert v.val).val.tdiv (T.common.convert c.val).val

/-- `v % c` -/
def rem (v : T.Value) (c : int.Value) : Int := (T.common.convert v.val).val.tmod (T.common.convert c.val).val

theorem common_of_inRange {x : Int} (h : T.InRange x) : T.common.InRange x := by
  unfold common
  split
  · next hlt =>
    have hwidth : (2 : Int) ^ T.width ≤ 2 ^ 31 := pow_le_pow_right₀ (by decide) (Nat.le_of_lt_succ hlt)
    have hpow := T.two_pow_width
    have hpos := two_pow_pos (T.width - 1)
    unfold InRange min max at h ⊢
    simp only [int, if_true]
    split at h <;> omega
  · exact h

/-- A positive constant is in the range of the common type. -/
theorem common_of_int {x : Int} (h : int.InRange x) (hpos : 0 < x) : T.common.InRange x := by
  unfold common
  split
  · exact h
  · next hge =>
    have hwidth : (2 : Int) ^ (31 : Nat) ≤ 2 ^ (T.width - 1) :=
      pow_le_pow_right₀ (by decide) (Nat.le_sub_one_of_lt (Nat.le_of_not_lt hge))
    have hpow := T.two_pow_width
    obtain ⟨-, hmax⟩ := h
    have hint : int.max = 2 ^ 31 - 1 := rfl
    rw [hint] at hmax
    refine ⟨Int.le_trans T.min_nonpos (Int.le_of_lt hpos), ?_⟩
    unfold max
    split <;> omega

variable {v : T.Value} {c : int.Value}

theorem quot_eq (hc : 0 < c.val) : quot v c = v.val.tdiv c.val := by
  rw [quot, convert_of_inRange (common_of_inRange v.property), convert_of_inRange (common_of_int c.property hc)]

theorem rem_eq (hc : 0 < c.val) : rem v c = v.val.tmod c.val := by
  rw [rem, convert_of_inRange (common_of_inRange v.property), convert_of_inRange (common_of_int c.property hc)]

/-- The quotient fits into the type of the value. -/
theorem convert_quot (hc : 0 < c.val) : (T.convert (quot v c)).val = v.val.tdiv c.val := by
  rw [quot_eq hc]
  refine convert_of_inRange (v.property.of_between ?_)
  rcases Int.le_total 0 v.val with h | h
  · exact .inl ⟨Int.tdiv_nonneg h (Int.le_of_lt hc), Int.tdiv_le_self _ h⟩
  · have hneg := Int.tdiv_nonneg (Int.neg_nonneg.mpr h) (Int.le_of_lt hc)
    have hle := Int.tdiv_le_self c.val (Int.neg_nonneg.mpr h)
    rw [Int.neg_tdiv] at hneg hle
    exact .inr ⟨by omega, by omega⟩

/-- The remainder fits into an `int`. -/
theorem convert_rem (hc : 0 < c.val) : (int.convert (rem v c)).val = v.val.tmod c.val := by
  rw [rem_eq hc]
  refine convert_of_inRange ?_
  have hlow := Int.lt_tmod_of_pos v.val hc
  have hhigh := Int.tmod_lt_of_pos v.val hc
  obtain ⟨-, hmax⟩ := c.property
  have hmin : int.min = -int.max - 1 := rfl
  exact ⟨by omega, by omega⟩

end IntegralType

end Infra
