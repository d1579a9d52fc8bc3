import Mathlib.Algebra.Group.Int.Defs
import Mathlib.Algebra.Group.Nat.Defs
import Mathlib.Data.Int.Init
import Mathlib.Data.List.Basic

/-!
# `SocketStream` and `readFixSize`

A connection is the list of pieces in which its bytes arrive. A read returns at most as many bytes as are
asked for, and at most as many as its `int` result can count; what is left of the piece
stays where it is. A connection without pieces has been closed by the peer.
-/

namespace Nemo.Net

/-- The bytes that arrive, piece by piece. -/
abbrev Stream := List (List UInt8)

/-- The value of a 32 bit `int` that is given `n`. -/
def toInt32 (n : Int) : Int := n.bmod (2 ^ 32)

/-- The value of an `int64_t` that is given `n`. -/
def toInt64 (n : Int) : Int := n.bmod (2 ^ 64)

def intMax : Nat := 2 ^ 31 - 1

/-- `SocketStream::read`. No bytes stand for a result that is not positive. -/
def read (length : Nat) : Stream → List UInt8 × Stream
  | [] => ([], [])
  | s :: rest =>
    let n := min length intMax
    (s.take n, if s.length ≤ n then rest else s.drop n :: rest)

/-- The loop of `Stream::readFixSize`: the bytes read, or none if a read fails. -/
def readLoop : Nat → Nat → Stream → Option (List UInt8) × Stream
  | _, 0, stream => (some [], stream)
  | 0, _ + 1, stream => (none, stream)
  | fuel + 1, left + 1, stream =>
    let (bytes, stream) := read (left + 1) stream
    if bytes.isEmpty then (none, stream)
    else
      let (more, stream) := readLoop fuel (left + 1 - bytes.length) stream
      (more.map (bytes ++ ·), stream)

/--
`Stream::readFixSize`: the bytes read, if its `int` result is positive. Every read takes a byte at
least, so that `length` bounds the number of reads.
-/
def readFixSize (length : Nat) (stream : Stream) : Option (List UInt8) × Stream :=
  let (bytes, stream) := readLoop length length stream
  (if 0 < toInt32 length then bytes else none, stream)

/-! ## Reading what is there -/

/-- No piece is empty. -/
def Solid (stream : Stream) : Prop := ∀ s ∈ stream, s ≠ []

instance (stream : Stream) : Decidable (Solid stream) :=
  inferInstanceAs (Decidable (∀ s ∈ stream, s ≠ []))

theorem length_le_flatten {stream : Stream} (h : Solid stream) :
    stream.length ≤ stream.flatten.length := by
  induction stream with
  | nil => exact Nat.le_refl 0
  | cons s rest ih =>
    have hs := List.length_pos_iff.mpr (h s List.mem_cons_self)
    have hrest := ih fun s' hs' => h s' (List.mem_cons_of_mem _ hs')
    rw [List.length_cons, List.flatten_cons, List.length_append]
    omega

/-- What is left of a connection behind the first `k` bytes. -/
def skip : Nat → Stream → Stream
  | _, [] => []
  | k, s :: rest => if s.length ≤ k then skip (k - s.length) rest else s.drop k :: rest

theorem skip_solid (k : Nat) {stream : Stream} (h : Solid stream) : Solid (skip k stream) := by
  induction stream generalizing k with
  | nil => exact h
  | cons s rest ih =>
    have hrest : Solid rest := fun s' hs' => h s' (List.mem_cons_of_mem _ hs')
    rw [skip]
    split
    · exact ih _ hrest
    · next hlt =>
      intro s' hs'
      rcases List.mem_cons.mp hs' with rfl | hs'
      · rw [← List.length_pos_iff, List.length_drop]
        omega
      · exact hrest s' hs'

theorem flatten_skip (k : Nat) (stream : Stream) :
    (skip k stream).flatten = stream.flatten.drop k := by
  induction stream generalizing k with
  | nil => simp [skip]
  | cons s rest ih =>
    rw [skip]
    split
    · next hle => rw [ih, List.flatten_cons, List.drop_append, List.drop_of_length_le hle,
        List.nil_append]
    · next hlt => rw [List.flatten_cons, List.flatten_cons, List.drop_append_of_le_length (by omega)]

theorem skip_zero {stream : Stream} (h : Solid stream) : skip 0 stream = stream := by
  cases stream with
  | nil => rfl
  | cons s rest =>
    have hs := List.length_pos_iff.mpr (h s List.mem_cons_self)
    rw [skip, if_neg (by omega), List.drop_zero]

theorem skip_skip (j k : Nat) (stream : Stream) :
    skip j (skip k stream) = skip (k + j) stream := by
  induction stream generalizing k with
  | nil => rfl
  | cons s rest ih =>
    rw [skip, skip]
    by_cases hk : s.length ≤ k
    · rw [if_pos hk, if_pos (by omega), ih]
      congr 1
      omega
    · rw [if_neg hk, skip, List.length_drop, List.drop_drop]
      by_cases hj : s.length - k ≤ j
      · rw [if_pos hj, if_pos (by omega)]
        congr 1
        omega
      · rw [if_neg hj, if_neg (by omega)]

/-- A read takes bytes from the front. -/
theorem read_solid {stream : Stream} (h : Solid stream) (hne : stream ≠ []) {length : Nat}
    (hlength : 0 < length) :
    ∃ n, Net.read length stream = (stream.flatten.take n, skip n stream) ∧ 0 < n ∧ n ≤ length ∧
      n ≤ stream.flatten.length := by
  cases stream with
  | nil => exact absurd rfl hne
  | cons s rest =>
    have hs := List.length_pos_iff.mpr (h s List.mem_cons_self)
    have hrest : Solid rest := fun s' hs' => h s' (List.mem_cons_of_mem _ hs')
    have hpositive : 0 < min length intMax := by
      have : 0 < intMax := by decide
      omega
    simp only [Net.read]
    rw [List.flatten_cons, List.length_append]
    by_cases hle : s.length ≤ min length intMax
    · refine ⟨s.length, ?_, hs, by omega, by omega⟩
      rw [List.take_of_length_le hle, if_pos hle, skip, if_pos (Nat.le_refl _), Nat.sub_self,
        skip_zero hrest, List.take_left]
    · refine ⟨min length intMax, ?_, hpositive, by omega, by omega⟩
      rw [if_neg hle, skip, if_neg hle, List.take_append_of_le_length (by omega)]

/-- The loop reads what is there. -/
theorem readLoop_solid {fuel n : Nat} {stream : Stream} (h : Solid stream) (hfuel : n ≤ fuel)
    (hn : n ≤ stream.flatten.length) :
    readLoop fuel n stream = (some (stream.flatten.take n), skip n stream) := by
  induction fuel generalizing n stream with
  | zero =>
    obtain rfl := Nat.le_zero.mp hfuel
    rw [skip_zero h]
    cases stream <;> rfl
  | succ fuel ih =>
    cases n with
    | zero =>
      rw [skip_zero h]
      rfl
    | succ n =>
      have hne : stream ≠ [] := by
        rintro rfl
        simp at hn
      obtain ⟨k, hread, hk, hle, hle'⟩ := read_solid h hne (Nat.succ_pos n)
      have hlength : (stream.flatten.take k).length = k := List.length_take_of_le hle'
      have hempty : (stream.flatten.take k).isEmpty = false := by
        rw [← Bool.not_eq_true, List.isEmpty_iff, ← List.length_eq_zero_iff, hlength]
        omega
      have hloop := ih (n := n + 1 - k) (skip_solid k h) (by omega)
        (by rw [flatten_skip, List.length_drop]; omega)
      rw [readLoop, hread]
      simp only [hempty, Bool.false_eq_true, if_false, hlength, hloop, Option.map_some]
      rw [flatten_skip, ← List.take_add, skip_skip, Nat.add_sub_cancel' hle]

/-- `readFixSize` reads what is there, if its `int` result can count it. -/
theorem readFixSize_solid {n : Nat} {stream : Stream} (h : Solid stream)
    (hn : n ≤ stream.flatten.length) (hint : 0 < toInt32 n) :
    readFixSize n stream = (some (stream.flatten.take n), skip n stream) := by
  rw [readFixSize, readLoop_solid h (Nat.le_refl n) hn]
  simp only [if_pos hint]

end Nemo.Net
