import Mathlib.Algebra.Group.Int.Defs
import Mathlib.Algebra.Group.Nat.Defs
import Mathlib.Logic.Equiv.Nat

/-!
# Zigzag

The four functions of `src/util/util.cc`. A zigzag code is a bijection between the integers and the
natural numbers, here `Equiv.intEquivNat`: the even codes are those of the integers from zero on, the
odd ones those of the negative integers.

* `intEquivNat_decodeZigzag` — both decoders are the bijection, at any width
* `intEquivNat_encodeZigzag64` — the encoder for 64 bits is not: it casts to 32 bits
-/

namespace Nemo

/-- `EncodeZigzag32` -/
def encodeZigzag32 (v : Int32) : UInt32 :=
  if v < 0 then (-v).toUInt32 * 2 - 1 else (v * 2).toUInt32

/-- `EncodeZigzag64`. The cast is to 32 bits, and the product has as many. -/
def encodeZigzag64 (v : Int64) : UInt64 :=
  if v < 0 then ((-v).toUInt64.toUInt32 * 2 - 1).toUInt64 else (v * 2).toUInt64

/-- `DecodeZigzag32` -/
def decodeZigzag32 (v : UInt32) : Int32 := (v >>> 1 ^^^ -(v &&& 1)).toInt32

/-- `DecodeZigzag64` -/
def decodeZigzag64 (v : UInt64) : Int64 := (v >>> 1 ^^^ -(v &&& 1)).toInt64

/-! ## The bijection -/

theorem intEquivNat_of_nonneg {v : Int} (h : 0 ≤ v) : (Equiv.intEquivNat v : Int) = 2 * v := by
  obtain ⟨n, rfl⟩ := Int.eq_ofNat_of_zero_le h
  rfl

theorem intEquivNat_of_neg {v : Int} (h : v < 0) : (Equiv.intEquivNat v : Int) = -2 * v - 1 := by
  obtain ⟨n, rfl⟩ := Int.eq_negSucc_of_lt_zero h
  have hcode : Equiv.intEquivNat (Int.negSucc n) = 2 * n + 1 := rfl
  rw [hcode]
  omega

/-- The decoder at any width: the lowest bit decides whether the other ones are inverted. -/
theorem intEquivNat_decode {w : Nat} (hw : 0 < w) (u : BitVec w) :
    Equiv.intEquivNat (u >>> 1 ^^^ -(u &&& 1#w)).toInt = u.toNat := by
  have hlt := u.isLt
  have hpow : 2 ^ w = 2 * 2 ^ (w - 1) := by
    rw [← Nat.pow_succ', Nat.succ_eq_add_one, Nat.sub_add_cancel hw]
  have hhalf : (u >>> 1).toNat = u.toNat / 2 := by
    rw [BitVec.toNat_ushiftRight, Nat.shiftRight_eq_div_pow, Nat.pow_one]
  have hone : (1#w).toNat = 1 := by
    rw [BitVec.toNat_ofNat, Nat.mod_eq_of_lt (Nat.one_lt_two_pow (by omega))]
  have hbit : (u &&& 1#w).toNat = u.toNat % 2 := by
    rw [BitVec.toNat_and, hone]
    exact Nat.and_one_is_mod _
  rcases Nat.mod_two_eq_zero_or_one u.toNat with heven | hodd
  · have hzero : u &&& 1#w = 0#w := BitVec.eq_of_toNat_eq (by rw [hbit, heven, BitVec.toNat_zero])
    rw [hzero, BitVec.neg_zero, BitVec.xor_zero, BitVec.toInt_eq_toNat_of_lt (by omega), hhalf]
    have hcode := intEquivNat_of_nonneg (Int.natCast_nonneg (u.toNat / 2))
    omega
  · have hmask : u &&& 1#w = 1#w := BitVec.eq_of_toNat_eq (by rw [hbit, hodd, hone])
    have hnot : (~~~(u >>> 1)).toNat = 2 ^ w - 1 - u.toNat / 2 := by rw [BitVec.toNat_not, hhalf]
    have hneg : (~~~(u >>> 1)).toInt = -(u.toNat / 2 : Nat) - 1 := by
      rw [BitVec.toInt_eq_toNat_cond, hnot, if_neg (by omega)]
      omega
    rw [hmask, BitVec.neg_one_eq_allOnes, BitVec.xor_allOnes, hneg]
    have hcode := intEquivNat_of_neg (v := -(u.toNat / 2 : Nat) - 1) (by omega)
    omega

theorem intEquivNat_decodeZigzag32 (u : UInt32) :
    Equiv.intEquivNat (decodeZigzag32 u).toInt = u.toNat := intEquivNat_decode (by decide) u.toBitVec

theorem intEquivNat_decodeZigzag64 (u : UInt64) :
    Equiv.intEquivNat (decodeZigzag64 u).toInt = u.toNat := intEquivNat_decode (by decide) u.toBitVec

/-! ## The encoders -/

/-- A signed word is read off the unsigned one that it is cast to. -/
theorem toInt_eq_toNat (w : Nat) (v : BitVec w) :
    v.toInt = if 2 * v.toNat < 2 ^ w then (v.toNat : Int) else v.toNat - (2 ^ w : Nat) :=
  BitVec.toInt_eq_toNat_cond v

theorem encodeZigzag32_toNat (v : Int32) : (encodeZigzag32 v).toNat = Equiv.intEquivNat v.toInt := by
  have hlt := v.toUInt32.toNat_lt
  have hint : v.toInt = if 2 * v.toUInt32.toNat < 2 ^ 32 then (v.toUInt32.toNat : Int)
      else v.toUInt32.toNat - (2 ^ 32 : Nat) := toInt_eq_toNat 32 v.toBitVec
  unfold encodeZigzag32
  split
  · next hneg =>
    rw [Int32.lt_iff_toInt_lt, Int32.toInt_zero] at hneg
    have hcode := intEquivNat_of_neg hneg
    rw [Int32.toUInt32_neg, UInt32.toNat_sub, UInt32.toNat_mul, UInt32.toNat_neg]
    simp only [UInt32.reduceToNat, UInt32.size]
    split at hint <;> omega
  · next hnonneg =>
    rw [Int32.lt_iff_toInt_lt, Int32.toInt_zero] at hnonneg
    have hcode := intEquivNat_of_nonneg (Int.not_lt.mp hnonneg)
    have hmul : (v * 2).toUInt32 = v.toUInt32 * 2 := rfl
    rw [hmul, UInt32.toNat_mul]
    simp only [UInt32.reduceToNat]
    split at hint <;> omega

/-- The code of a negative number that 32 bits can hold, and of any number from zero on. -/
theorem encodeZigzag64_toNat {v : Int64} (h : -2 ^ 31 ≤ v.toInt) :
    (encodeZigzag64 v).toNat = Equiv.intEquivNat v.toInt := by
  have hlt := v.toUInt64.toNat_lt
  have hint : v.toInt = if 2 * v.toUInt64.toNat < 2 ^ 64 then (v.toUInt64.toNat : Int)
      else v.toUInt64.toNat - (2 ^ 64 : Nat) := toInt_eq_toNat 64 v.toBitVec
  unfold encodeZigzag64
  split
  · next hneg =>
    rw [Int64.lt_iff_toInt_lt, Int64.toInt_zero] at hneg
    have hcode := intEquivNat_of_neg hneg
    rw [Int64.toUInt64_neg, UInt32.toNat_toUInt64, UInt32.toNat_sub, UInt32.toNat_mul,
      UInt64.toNat_toUInt32, UInt64.toNat_neg]
    simp only [UInt32.reduceToNat, UInt64.size]
    split at hint <;> omega
  · next hnonneg =>
    rw [Int64.lt_iff_toInt_lt, Int64.toInt_zero] at hnonneg
    have hcode := intEquivNat_of_nonneg (Int.not_lt.mp hnonneg)
    have hmul : (v * 2).toUInt64 = v.toUInt64 * 2 := rfl
    rw [hmul, UInt64.toNat_mul]
    simp only [UInt64.reduceToNat]
    split at hint <;> omega

/-- Of a negative number 32 bits are encoded. -/
theorem encodeZigzag64_lt {v : Int64} (h : v.toInt < 0) : (encodeZigzag64 v).toNat < 2 ^ 32 := by
  rw [encodeZigzag64, if_pos (Int64.lt_iff_toInt_lt.mpr h), UInt32.toNat_toUInt64]
  exact UInt32.toNat_lt _

/-! ## The round trips -/

theorem decode_encodeZigzag32 (v : Int32) : decodeZigzag32 (encodeZigzag32 v) = v := by
  apply Int32.toInt_inj.mp
  apply Equiv.intEquivNat.injective
  rw [intEquivNat_decodeZigzag32, encodeZigzag32_toNat]

theorem encode_decodeZigzag32 (u : UInt32) : encodeZigzag32 (decodeZigzag32 u) = u := by
  apply UInt32.toNat_inj.mp
  rw [encodeZigzag32_toNat, intEquivNat_decodeZigzag32]

theorem decode_encodeZigzag64_iff (v : Int64) :
    decodeZigzag64 (encodeZigzag64 v) = v ↔ -2 ^ 31 ≤ v.toInt := by
  constructor
  · intro heq
    by_contra hlt
    have hcode := intEquivNat_of_neg (v := v.toInt) (by omega)
    rw [← heq, intEquivNat_decodeZigzag64, heq] at hcode
    have := encodeZigzag64_lt (v := v) (by omega)
    omega
  · intro hge
    apply Int64.toInt_inj.mp
    apply Equiv.intEquivNat.injective
    rw [intEquivNat_decodeZigzag64, encodeZigzag64_toNat hge]

theorem encode_decodeZigzag64_iff (u : UInt64) :
    encodeZigzag64 (decodeZigzag64 u) = u ↔ u.toNat % 2 = 0 ∨ u.toNat < 2 ^ 32 := by
  have hdecode := intEquivNat_decodeZigzag64 u
  constructor
  · intro heq
    by_contra hno
    have hneg : (decodeZigzag64 u).toInt < 0 := by
      by_contra hnonneg
      have hcode := intEquivNat_of_nonneg (Int.not_lt.mp hnonneg)
      omega
    have := encodeZigzag64_lt hneg
    rw [heq] at this
    omega
  · intro hor
    apply UInt64.toNat_inj.mp
    rw [encodeZigzag64_toNat, hdecode]
    rcases Int.lt_or_le (decodeZigzag64 u).toInt 0 with hneg | hnonneg
    · have hcode := intEquivNat_of_neg hneg
      omega
    · omega

/-- The laws of a bijection, for both widths. -/
structure ZigzagLaws (v : Int32) (u : UInt32) (v' : Int64) (u' : UInt64) : Prop where
  decode_encode32 : decodeZigzag32 (encodeZigzag32 v) = v
  encode_decode32 : encodeZigzag32 (decodeZigzag32 u) = u
  decode_encode64 : decodeZigzag64 (encodeZigzag64 v') = v'
  encode_decode64 : encodeZigzag64 (decodeZigzag64 u') = u'

/--
**Where zigzag is a bijection**: everywhere at 32 bits; at 64 bits for the numbers from `-2 ^ 31` on,
and for the codes that are even or have 32 bits.
-/
theorem zigzagLaws_iff (v : Int32) (u : UInt32) (v' : Int64) (u' : UInt64) :
    ZigzagLaws v u v' u' ↔ -2 ^ 31 ≤ v'.toInt ∧ (u'.toNat % 2 = 0 ∨ u'.toNat < 2 ^ 32) := by
  rw [← decode_encodeZigzag64_iff, ← encode_decodeZigzag64_iff]
  constructor
  · intro h
    exact ⟨h.decode_encode64, h.encode_decode64⟩
  · rintro ⟨hnumber, hcode⟩
    exact ⟨decode_encodeZigzag32 v, encode_decodeZigzag32 u, hnumber, hcode⟩

/-- The number `-2 ^ 31 - 1` is encoded as 1, and decoded as -1. -/
theorem not_zigzagLaws : ¬ ∀ v u v' u', ZigzagLaws v u v' u' := by
  intro h
  have hfail := (h 0 0 (-2147483649) 0).decode_encode64
  revert hfail
  decide

end Nemo
