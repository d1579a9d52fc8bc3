import Mathlib.Algebra.Order.Group.Nat

/-!
# Words as bytes

A word of `k` bytes is a `BitVec (8 * k)`. `bytesOf` gives its bytes in the order of the memory of a
machine, and `wordOf` takes them back. `byteSwap` turns one order into the other.
-/

namespace Infra

/-- The order of the bytes of a word. -/
inductive Endian
  | little | big
  deriving DecidableEq, Repr

/-- The lowest `k` bytes of a number, from the lowest one on. -/
def littleEndian : Nat → Nat → List UInt8
  | 0, _ => []
  | k + 1, n => UInt8.ofNat n :: littleEndian k (n / 256)

/-- The number whose bytes from the lowest one on are given. -/
def ofLittleEndian : List UInt8 → Nat
  | [] => 0
  | b :: bs => b.toNat + 256 * ofLittleEndian bs

theorem length_littleEndian (k n : Nat) : (littleEndian k n).length = k := by
  induction k generalizing n with
  | zero => rfl
  | succ k ih => rw [littleEndian, List.length_cons, ih]

theorem ofLittleEndian_littleEndian (k n : Nat) :
    ofLittleEndian (littleEndian k n) = n % 256 ^ k := by
  induction k generalizing n with
  | zero => rw [littleEndian, ofLittleEndian, Nat.pow_zero, Nat.mod_one]
  | succ k ih =>
    have hlow : (UInt8.ofNat n).toNat = n % 256 := UInt8.toNat_ofNat'
    rw [littleEndian, ofLittleEndian, ih, hlow, Nat.pow_succ', Nat.mod_mul]

theorem ofLittleEndian_lt (bs : List UInt8) : ofLittleEndian bs < 256 ^ bs.length := by
  induction bs with
  | nil => exact Nat.one_pos
  | cons b bs ih =>
    have hb := b.toNat_lt
    rw [ofLittleEndian, List.length_cons, Nat.pow_succ']
    omega

theorem littleEndian_ofLittleEndian (bs : List UInt8) :
    littleEndian bs.length (ofLittleEndian bs) = bs := by
  induction bs with
  | nil => rfl
  | cons b bs ih =>
    have hb := b.toNat_lt
    have hrest : (b.toNat + 256 * ofLittleEndian bs) / 256 = ofLittleEndian bs := by omega
    rw [ofLittleEndian, List.length_cons, littleEndian, hrest, ih]
    congr 1
    apply UInt8.toNat_inj.mp
    rw [UInt8.toNat_ofNat']
    omega

/-- A word of `k` bytes. -/
abbrev Word (k : Nat) := BitVec (8 * k)

/-- The bytes of a word in the memory of a machine. -/
def bytesOf {k : Nat} : Endian → Word k → List UInt8
  | .little, x => littleEndian k x.toNat
  | .big, x => (littleEndian k x.toNat).reverse

/-- The word that has the given bytes in the memory of a machine. -/
def wordOf (k : Nat) : Endian → List UInt8 → Word k
  | .little, bs => BitVec.ofNat (8 * k) (ofLittleEndian bs)
  | .big, bs => BitVec.ofNat (8 * k) (ofLittleEndian bs.reverse)

/-- `ByteSwap`: the word with its bytes in the other order. -/
def byteSwap {k : Nat} (x : Word k) : Word k := wordOf k .big (littleEndian k x.toNat)

section

variable {k : Nat} (e e' : Endian) (x : Word k)

theorem length_bytesOf : (bytesOf e x).length = k := by
  cases e with
  | little => exact length_littleEndian k _
  | big => exact List.length_reverse.trans (length_littleEndian k _)

theorem wordOf_bytesOf : wordOf k e (bytesOf e x) = x := by
  have hpow : 2 ^ (8 * k) = 256 ^ k := Nat.pow_mul 2 8 k
  have hlow : x.toNat % 256 ^ k = x.toNat := Nat.mod_eq_of_lt (hpow ▸ x.isLt)
  cases e with
  | little => rw [bytesOf, wordOf, ofLittleEndian_littleEndian, hlow, BitVec.ofNat_toNat,
      BitVec.setWidth_eq]
  | big => rw [bytesOf, wordOf, List.reverse_reverse, ofLittleEndian_littleEndian, hlow,
      BitVec.ofNat_toNat, BitVec.setWidth_eq]

theorem littleEndian_byteSwap : littleEndian k (byteSwap x).toNat = (littleEndian k x.toNat).reverse := by
  have hlen : (littleEndian k x.toNat).reverse.length = k :=
    List.length_reverse.trans (length_littleEndian k _)
  have hlt := ofLittleEndian_lt (littleEndian k x.toNat).reverse
  rw [hlen, ← show 2 ^ (8 * k) = 256 ^ k from Nat.pow_mul 2 8 k] at hlt
  have hback := littleEndian_ofLittleEndian (littleEndian k x.toNat).reverse
  rw [hlen] at hback
  rw [byteSwap, wordOf, BitVec.toNat_ofNat, Nat.mod_eq_of_lt hlt, hback]

/-- A swapped word has in one order the bytes that it had in the other one. -/
theorem bytesOf_byteSwap (h : e' ≠ e) : bytesOf e (byteSwap x) = bytesOf e' x := by
  cases e <;> cases e'
  · exact absurd rfl h
  · exact littleEndian_byteSwap x
  · rw [bytesOf, bytesOf, littleEndian_byteSwap, List.reverse_reverse]
  · exact absurd rfl h

theorem byteSwap_byteSwap : byteSwap (byteSwap x) = x := by
  have h := congrArg (wordOf k .little) ((bytesOf_byteSwap .little .big (byteSwap x) nofun).trans
    (congrArg List.reverse (littleEndian_byteSwap x)))
  rwa [wordOf_bytesOf, List.reverse_reverse, ← bytesOf, wordOf_bytesOf] at h

end

/-! ## The bits -/

theorem testBit_ofLittleEndian : ∀ (bs : List UInt8) (i : Nat),
    (ofLittleEndian bs).testBit i = (bs[i / 8]?.any fun b => b.toNat.testBit (i % 8))
  | [], i => by
    rw [ofLittleEndian, Nat.zero_testBit]
    rfl
  | b :: bs, i => by
    rw [ofLittleEndian, Nat.add_comm, show 256 = 2 ^ 8 from rfl, Nat.testBit_two_pow_mul_add _ b.toNat_lt]
    by_cases hi : i < 8
    · rw [if_pos hi, Nat.div_eq_of_lt hi, Nat.mod_eq_of_lt hi]
      rfl
    · have hdiv : i / 8 = (i - 8) / 8 + 1 := by omega
      have hmod : i % 8 = (i - 8) % 8 := by omega
      rw [if_neg hi, testBit_ofLittleEndian bs, hdiv, hmod, List.getElem?_cons_succ]

theorem getElem?_littleEndian : ∀ (k n j : Nat), j < k →
    (littleEndian k n)[j]? = some (UInt8.ofNat (n / 256 ^ j))
  | k + 1, n, 0, _ => by
    rw [littleEndian, List.getElem?_cons_zero, Nat.pow_zero, Nat.div_one]
  | k + 1, n, j + 1, h => by
    rw [littleEndian, List.getElem?_cons_succ, getElem?_littleEndian k _ j (Nat.lt_of_succ_lt_succ h),
      Nat.div_div_eq_div_mul, Nat.pow_succ']

section

variable {k : Nat} (x y : Word k)

/-- The bits of a byte stay together. -/
theorem getLsbD_byteSwap {i : Nat} (hi : i < 8 * k) :
    (byteSwap x).getLsbD i = x.getLsbD (8 * (k - 1 - i / 8) + i % 8) := by
  have hj : k - 1 - i / 8 < k := by omega
  have hpow : 256 ^ (k - 1 - i / 8) = 2 ^ (8 * (k - 1 - i / 8)) := (Nat.pow_mul 2 8 _).symm
  have hget : (littleEndian k x.toNat).reverse[i / 8]? = some (UInt8.ofNat (x.toNat / 256 ^ (k - 1 - i / 8))) := by
    rw [List.getElem?_reverse (by rw [length_littleEndian]; omega), length_littleEndian,
      getElem?_littleEndian k _ _ hj]
  rw [byteSwap, wordOf, BitVec.getLsbD_ofNat, testBit_ofLittleEndian, hget, decide_eq_true hi, Bool.true_and,
    Option.any_some, UInt8.toNat_ofNat', hpow, Nat.testBit_mod_two_pow,
    Nat.testBit_div_two_pow, decide_eq_true (Nat.mod_lt i (by decide)), Bool.true_and, Nat.add_comm]
  rfl

theorem byteSwap_and : byteSwap (x &&& y) = byteSwap x &&& byteSwap y := by
  refine BitVec.eq_of_getLsbD_eq fun i hi => ?_
  rw [BitVec.getLsbD_and, getLsbD_byteSwap _ hi, getLsbD_byteSwap _ hi, getLsbD_byteSwap _ hi, BitVec.getLsbD_and]

theorem byteSwap_or : byteSwap (x ||| y) = byteSwap x ||| byteSwap y := by
  refine BitVec.eq_of_getLsbD_eq fun i hi => ?_
  rw [BitVec.getLsbD_or, getLsbD_byteSwap _ hi, getLsbD_byteSwap _ hi, getLsbD_byteSwap _ hi, BitVec.getLsbD_or]

theorem byteSwap_not : byteSwap (~~~x) = ~~~byteSwap x := by
  refine BitVec.eq_of_getLsbD_eq fun i hi => ?_
  have hsame : 8 * (k - 1 - i / 8) + i % 8 < 8 * k := by omega
  rw [BitVec.getLsbD_not, getLsbD_byteSwap _ hi, getLsbD_byteSwap _ hi, BitVec.getLsbD_not, decide_eq_true hi,
    decide_eq_true hsame]

end

end Infra
