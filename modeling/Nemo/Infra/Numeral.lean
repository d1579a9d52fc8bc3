import Mathlib.Data.Nat.Digits.Lemmas

/-!
# Numerals

`numeral b n` is the numeral of `n` to the base `b`, the digit of the highest place first.

* `isNumeral_iff` — it is the only list of digits with this value and without leading zeros
* `reverse_numeral` — a loop that divides until nothing is left gives its digits, the last one first
-/

namespace Infra

/-- The canonical numeral of a number. The only one that begins with `0` is that of zero. -/
structure IsNumeral (b : Nat) (ds : List Nat) (n : Nat) : Prop where
  ne_nil : ds ≠ []
  digit_lt : ∀ d ∈ ds, d < b
  noLeadingZero : ds.head? = some 0 → ds = [0]
  value : Nat.ofDigits b ds.reverse = n

def numeral (b n : Nat) : List Nat := if n = 0 then [0] else (b.digits n).reverse

variable {b n : Nat} {ds : List Nat}

theorem numeral_zero (b : Nat) : numeral b 0 = [0] := if_pos rfl

theorem numeral_of_ne_zero (h : n ≠ 0) : numeral b n = (b.digits n).reverse := if_neg h

theorem isNumeral_numeral (hb : 1 < b) (n : Nat) : IsNumeral b (numeral b n) n := by
  by_cases hn : n = 0
  · subst hn
    rw [numeral_zero]
    exact ⟨List.cons_ne_nil 0 [], fun d hd => List.mem_singleton.mp hd ▸ Nat.lt_of_succ_lt hb, fun _ => rfl,
      Nat.ofDigits_singleton⟩
  · rw [numeral_of_ne_zero hn]
    have hne : b.digits n ≠ [] := Nat.digits_ne_nil_iff_ne_zero.mpr hn
    refine ⟨fun h => hne (List.reverse_eq_nil_iff.mp h),
      fun d hd => Nat.digits_lt_base hb (List.mem_reverse.mp hd), fun h => ?_, ?_⟩
    · -- the digit of the highest place is not zero
      rw [List.head?_reverse, List.getLast?_eq_some_getLast hne] at h
      exact absurd (Option.some.inj h) (Nat.getLast_digit_ne_zero b hn)
    · rw [List.reverse_reverse, Nat.ofDigits_digits]

/-- **A number has one numeral.** -/
theorem isNumeral_iff (hb : 1 < b) : IsNumeral b ds n ↔ ds = numeral b n := by
  constructor
  · rintro ⟨hne, hlt, hzero, rfl⟩
    by_cases hhead : ds.head? = some 0
    · rw [hzero hhead, List.reverse_singleton, Nat.ofDigits_singleton, numeral_zero]
    · have hlast : ∀ h : ds.reverse ≠ [], ds.reverse.getLast h ≠ 0 := by
        intro h hz
        rw [List.getLast_reverse] at hz
        rw [List.head?_eq_some_head hne, hz] at hhead
        exact hhead rfl
      have hdigits := Nat.digits_ofDigits b hb ds.reverse (fun d hd => hlt d (List.mem_reverse.mp hd)) hlast
      have hn : Nat.ofDigits b ds.reverse ≠ 0 := by
        rw [← Nat.digits_ne_nil_iff_ne_zero (b := b), hdigits]
        exact fun h => hne (List.reverse_eq_nil_iff.mp h)
      rw [numeral_of_ne_zero hn, hdigits, List.reverse_reverse]
  · rintro rfl
    exact isNumeral_numeral hb n

/-- The digits from the last one on: the loop ends when the quotient is zero. -/
theorem reverse_numeral (hb : 1 < b) (n : Nat) :
    (numeral b n).reverse = n % b :: if n / b = 0 then [] else (numeral b (n / b)).reverse := by
  by_cases hn : n = 0
  · subst hn
    rw [numeral_zero, Nat.zero_mod, Nat.zero_div, if_pos rfl, List.reverse_singleton]
  · rw [numeral_of_ne_zero hn, List.reverse_reverse, Nat.digits_def' hb (Nat.pos_of_ne_zero hn)]
    split
    · next h => rw [h, Nat.digits_zero]
    · next h => rw [numeral_of_ne_zero h, List.reverse_reverse]

end Infra
