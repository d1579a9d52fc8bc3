import Nemo.Http.Table

/-!
# The C string functions

A pointer is the memory behind it, and a string ends at its first NUL byte. Where a list ends the
source has a NUL byte too, or does not read on.
-/

namespace Nemo

open Http (Bytes ascii)

/-- The bytes before the first NUL. -/
def cString (s : Bytes) : Bytes := s.takeWhile (· != 0)

def tolower (b : UInt8) : UInt8 := if 65 ≤ b.toNat ∧ b.toNat ≤ 90 then b + 32 else b

/-- The order of two strings of which each byte is read through `f`. -/
def compareBytes (f : UInt8 → UInt8) : Bytes → Bytes → Ordering
  | [], [] => .eq
  | [], _ :: _ => .lt
  | _ :: _, [] => .gt
  | a :: s, b :: t => (compare (f a).toNat (f b).toNat).then (compareBytes f s t)

/-- `strncmp`. -/
def strncmp (s t : Bytes) (n : Nat) : Ordering :=
  compareBytes id ((cString s).take n) ((cString t).take n)

/-- `strcasecmp`. -/
def strcasecmp (s t : Bytes) : Ordering := compareBytes tolower (cString s) (cString t)

/-- `strncasecmp`. -/
def strncasecmp (s t : Bytes) (n : Nat) : Ordering :=
  compareBytes tolower ((cString s).take n) ((cString t).take n)

theorem compareBytes_eq_iff {f : UInt8 → UInt8} {s t : Bytes} :
    compareBytes f s t = .eq ↔ s.map f = t.map f := by
  induction s generalizing t with
  | nil => cases t <;> simp [compareBytes]
  | cons a s ih =>
    cases t with
    | nil => simp [compareBytes]
    | cons b t =>
      rw [compareBytes, Ordering.then_eq_eq, ih, Nat.compare_eq_eq, UInt8.toNat_inj]
      simp

theorem compareBytes_lt_trans {f : UInt8 → UInt8} {s t u : Bytes}
    (h : compareBytes f s t = .lt) (h' : compareBytes f t u = .lt) :
    compareBytes f s u = .lt := by
  induction s generalizing t u with
  | nil =>
    cases u with
    | nil => cases t <;> simp [compareBytes] at h'
    | cons => rfl
  | cons a s ih =>
    cases t with
    | nil => simp [compareBytes] at h
    | cons b t =>
      cases u with
      | nil => simp [compareBytes] at h'
      | cons c u =>
        simp only [compareBytes, Ordering.then_eq_lt, Nat.compare_eq_lt, Nat.compare_eq_eq] at h h' ⊢
        rcases h with h | ⟨hab, h⟩
        · rcases h' with h' | ⟨hbc, -⟩
          · exact .inl (by omega)
          · exact .inl (by omega)
        · rcases h' with h' | ⟨hbc, h'⟩
          · exact .inl (by omega)
          · exact .inr ⟨by omega, ih h h'⟩

/-- What is not less than a string on the one side is on the other. -/
theorem compareBytes_lt_between {f : UInt8 → UInt8} {s u : Bytes} (t : Bytes)
    (h : compareBytes f s u = .lt) : compareBytes f s t = .lt ∨ compareBytes f t u = .lt := by
  induction s generalizing t u with
  | nil =>
    cases u with
    | nil => simp [compareBytes] at h
    | cons => cases t <;> simp [compareBytes]
  | cons a s ih =>
    cases u with
    | nil => simp [compareBytes] at h
    | cons c u =>
      cases t with
      | nil => exact .inr rfl
      | cons b t =>
        simp only [compareBytes, Ordering.then_eq_lt, Nat.compare_eq_lt, Nat.compare_eq_eq] at h ⊢
        by_cases hab : (f a).toNat < (f b).toNat
        · exact .inl (.inl hab)
        by_cases hbc : (f b).toNat < (f c).toNat
        · exact .inr (.inl hbc)
        rcases h with h | ⟨hac, h⟩
        · omega
        · exact (ih t h).imp (fun h' => .inr ⟨by omega, h'⟩) fun h' => .inr ⟨by omega, h'⟩

end Nemo
