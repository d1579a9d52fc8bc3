import Mathlib.Algebra.Group.Nat.Defs
import Mathlib.Data.Nat.Log

/-!
# Numbers in groups of seven bits

`varint n` spells `n` in bytes that hold seven bits each, the lowest first. Every byte but the last one
has its high bit set.
-/

namespace Infra

def varint (n : Nat) : List UInt8 :=
  if n < 128 then [UInt8.ofNat n] else UInt8.ofNat (n % 128 + 128) :: varint (n / 128)
termination_by n
decreasing_by exact Nat.div_lt_self (by omega) (by decide)

theorem varint_of_lt {n : Nat} (h : n < 128) : varint n = [UInt8.ofNat n] := by
  rw [varint, if_pos h]

theorem varint_of_ge {n : Nat} (h : 128 ≤ n) :
    varint n = UInt8.ofNat (n % 128 + 128) :: varint (n / 128) := by
  rw [varint, if_neg (Nat.not_lt.mpr h)]

/-- A byte for each digit to the base 128. -/
theorem length_varint (n : Nat) : (varint n).length = 1 + Nat.log 128 n := by
  induction n using varint.induct with
  | case1 n h => rw [varint_of_lt h, List.length_singleton, Nat.log_of_lt h]
  | case2 n h ih =>
    have hle : 128 ≤ n := Nat.not_lt.mp h
    rw [varint_of_ge hle, List.length_cons, ih, Nat.log_of_one_lt_of_le (by decide) hle]
    omega

theorem length_varint_le {n k : Nat} (hk : k ≠ 0) (h : n < 128 ^ k) : (varint n).length ≤ k := by
  have hlog := Nat.log_lt_of_lt_pow' hk h
  rw [length_varint]
  omega

end Infra
