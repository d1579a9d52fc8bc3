import Mathlib.Tactic.IntervalCases
import Nemo.Http.Message
import Nemo.Infra.Slice

/-!
# A version that is cut

`OnRequestVersion` and `OnResponseVersion` compare as many bytes as they are given, less the last one.
Of the eight bytes of a version they accept the whole, and the last byte alone.
-/

namespace Nemo.Http

open Infra

theorem cString_take {s t : Bytes} {n : Nat} (h : (cString s).take n = t) (ht : t.length = n) :
    s.take n = t := by
  have hpre : (cString s).take n <+: s :=
    (List.take_prefix n (cString s)).trans (List.takeWhile_prefix _)
  rw [h] at hpre
  rw [List.prefix_iff_eq_take.mp hpre, ht]

/-- A version that is accepted is `HTTP/1.` and a digit. -/
theorem eq_of_versionOf {v m : Bytes} {version : HttpVersion} (hlen : v.length = 8)
    (h : versionOf (v ++ m) 8 = some version) :
    (v = ascii "HTTP/1.1" ∧ version = .http11) ∨ (v = ascii "HTTP/1.0" ∧ version = .http10) := by
  simp only [versionOf, Nat.reduceEqDiff, if_false, Nat.add_one_sub_one] at h
  split at h
  · next hcmp =>
    rw [strncmp, compareBytes_eq_iff, List.map_id, List.map_id] at hcmp
    have htake : (v ++ m).take 7 = ascii "HTTP/1." := cString_take hcmp (by decide)
    rw [List.take_append_of_le_length (by omega)] at htake
    obtain ⟨d, hd⟩ : ∃ d, v.drop 7 = [d] := by
      rw [← List.length_eq_one_iff, List.length_drop]
      omega
    have hv : v = ascii "HTTP/1." ++ [d] := by rw [← htake, ← hd, List.take_append_drop]
    have hlast : (v ++ m).getD 7 0 = d := by
      rw [hv]
      rfl
    rw [hlast] at h
    split at h
    · next h1 =>
      subst h1
      exact .inl ⟨hv, (Option.some.inj h).symm⟩
    split at h
    · next h0 =>
      subst h0
      exact .inr ⟨hv, (Option.some.inj h).symm⟩
    · cases h
  · cases h

/--
**What is left of a version**, when its first `k` bytes are cut off, is accepted if nothing is missing
or everything but the last digit.
-/
theorem versionOf_drop {v m m' : Bytes} {c : UInt8} {version : HttpVersion} (hlen : v.length = 8)
    (hc : c = 10 ∨ c = 13 ∨ c = 32) (h : versionOf (v ++ m) 8 = some version) {k : Nat} (hk : k ≤ 8) :
    versionOf (v.drop k ++ c :: m') (8 - k) = if k = 0 ∨ k = 7 then some version else none := by
  rcases eq_of_versionOf hlen h with ⟨rfl, rfl⟩ | ⟨rfl, rfl⟩
  all_goals
    rcases hc with rfl | rfl | rfl
    all_goals
      -- the first byte of what is left decides, but for the last digit
      interval_cases k <;> rfl

end Nemo.Http
