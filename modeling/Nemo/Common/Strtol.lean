import Mathlib.Data.Nat.Digits.Defs
import Nemo.Http.Table

/-!
# `strtol`

The number at the beginning of a string, in the bases that the parsers use.
-/

namespace Nemo

open Http (Bytes)

def isspace (b : UInt8) : Bool := b.toNat = 32 || 9 ≤ b.toNat && b.toNat ≤ 13

/-- The value of a digit; what is no digit has a value that no base has. -/
def digitValue (b : UInt8) : Nat :=
  if 48 ≤ b.toNat ∧ b.toNat ≤ 57 then b.toNat - 48
  else if 65 ≤ b.toNat ∧ b.toNat ≤ 90 then b.toNat - 55
  else if 97 ≤ b.toNat ∧ b.toNat ≤ 122 then b.toNat - 87
  else 36

/-- The number that the first digits make. -/
def digitsValue (base : Nat) (s : Bytes) : Nat :=
  Nat.ofDigits base ((s.map digitValue).takeWhile (· < base)).reverse

/-- A sign: whether it is a minus, and what is behind it. -/
def takeSign : Bytes → Bool × Bytes
  | 45 :: s => (true, s)
  | 43 :: s => (false, s)
  | s => (false, s)

/-- `0x` in front of a hexadecimal digit is left out. -/
def dropHexPrefix : Bytes → Bytes
  | 48 :: x :: d :: s => if (x = 88 ∨ x = 120) ∧ digitValue d < 16 then d :: s else 48 :: x :: d :: s
  | s => s

/-- `strtol` in the bases 10 and 16: what no `long` holds becomes the largest or the least one. -/
def strtol (base : Nat) (s : Bytes) : Int :=
  let (negative, s) := takeSign (s.dropWhile isspace)
  let s := if base = 16 then dropHexPrefix s else s
  let n : Int := digitsValue base s
  if negative then max (-n) (-2 ^ 63) else min n (2 ^ 63 - 1)

example : strtol 10 (Http.ascii " -12 ") = -12 ∧ strtol 16 (Http.ascii "1F\r\n") = 31 := by
  decide +kernel

end Nemo
