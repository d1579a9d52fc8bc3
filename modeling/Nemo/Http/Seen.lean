import Nemo.Http.Offsets
import Nemo.Infra.Slice

/-!
# What is seen of a token

A text arrives in reads. A callback that is made at the position `fpc` sees the token from the
start of the read in which `fpc` lies, so that it sees the whole token exactly if no read
ends inside of it.
-/

namespace Nemo.Http

open Infra

variable {E : Type} {reads : List Bytes} {text : Bytes}

/-! ## The read of a position -/

theorem exists_read {reads : List Bytes} {p : Nat} (hp : p < reads.flatten.length) :
    ∃ xs s ys, reads = xs ++ s :: ys ∧ xs.flatten.length ≤ p ∧
      p < xs.flatten.length + s.length := by
  induction reads generalizing p with
  | nil => simp at hp
  | cons r rs ih =>
    rw [List.flatten_cons, List.length_append] at hp
    by_cases hr : p < r.length
    · exact ⟨[], r, rs, rfl, Nat.zero_le p, by simpa using hr⟩
    · obtain ⟨xs, s, ys, rfl, hle, hlt⟩ := ih (p := p - r.length) (by omega)
      refine ⟨r :: xs, s, ys, rfl, ?_, ?_⟩ <;>
        rw [List.flatten_cons, List.length_append] <;> omega

/-- Where a position lies in the reads of a text. -/
structure Cuts.At (cuts : Cuts) (text : Bytes) (p : Nat) : Prop where
  base_le : cuts.base p ≤ p
  lt : p < cuts.base p + (cuts.buffer p).length
  slice_eq : ∀ i j, j ≤ cuts.base p + (cuts.buffer p).length →
    slice (cuts.buffer p) (i - cuts.base p) (j - cuts.base p)
      = slice text (max i (cuts.base p)) j

/-- A slice of a read is a slice of the text. -/
theorem slice_read (xs : Bytes) {s : Bytes} {i j : Nat} (hj : j ≤ xs.length + s.length)
    (ys : Bytes) :
    slice s (i - xs.length) (j - xs.length) = slice (xs ++ (s ++ ys)) (max i xs.length) j := by
  by_cases hlt : max i xs.length < j
  · have hi : max i xs.length = xs.length + (i - xs.length) := by omega
    have hj' : j = xs.length + (j - xs.length) := by omega
    conv_rhs => rw [hi, hj']
    exact (slice_append_right xs (by omega) ys).symm
  · have h1 : j - xs.length - (i - xs.length) = 0 := by omega
    have h2 : j - max i xs.length = 0 := by omega
    rw [slice, slice, h1, h2, List.take_zero, List.take_zero]

theorem Cuts.at_of (htext : reads.flatten = text) {p : Nat} (hp : p < text.length) :
    (Cuts.of reads).At text p := by
  subst htext
  obtain ⟨xs, s, ys, rfl, hle, hlt⟩ := exists_read hp
  obtain ⟨hbase, hbuf⟩ := Cuts.covers_of xs s ys (p - xs.flatten.length) (by omega)
  rw [Nat.sub_add_cancel hle] at hbase hbuf
  refine ⟨by omega, by rw [hbase, hbuf]; exact hlt, fun i j hj => ?_⟩
  rw [hbase, hbuf] at hj ⊢
  rw [List.flatten_append, List.flatten_cons]
  exact slice_read _ hj _

/-- Two positions between which no read ends are in the same read. -/
theorem Cuts.base_eq (htext : reads.flatten = text) {i p : Nat} (hp : p < text.length) (hi : i ≤ p)
    (hbase : (Cuts.of reads).base p ≤ i) : (Cuts.of reads).base i = (Cuts.of reads).base p := by
  subst htext
  obtain ⟨xs, s, ys, rfl, hle, hlt⟩ := exists_read hp
  have hp' := (Cuts.covers_of xs s ys (p - xs.flatten.length) (by omega)).1
  rw [Nat.sub_add_cancel hle] at hp'
  rw [hp'] at hbase
  have hi' := (Cuts.covers_of xs s ys (i - xs.flatten.length) (by omega)).1
  rw [Nat.sub_add_cancel hbase] at hi'
  rw [hi', hp']

/-! ## Elements and fields -/

theorem stringArg_drop {buffer : Bytes} {i n : Nat} (hn : i + n ≤ buffer.length) :
    stringArg (buffer.drop i) n = some (slice buffer i (i + n)) := by
  rw [stringArg, if_pos (by rw [List.length_drop]; omega), slice, Nat.add_sub_cancel_left]

/-- The text of an element, as far as it is in the read of its last byte. -/
theorem stringArg_element {cuts : Cuts} {i p : Nat} (hat : cuts.At text p) (hi : i ≤ p) :
    stringArg ((cuts.buffer p).drop (i - cuts.base p)) (len (i - cuts.base p) (p - cuts.base p))
      = some (slice text (max i (cuts.base p)) p) := by
  have hlt := hat.lt
  rw [len_of_le (by omega), stringArg_drop (by omega), ← hat.slice_eq i p (Nat.le_of_lt hlt)]
  congr 2
  omega

/-- The name and the value of a header line, unless no byte of the name is seen. -/
def Token.fieldSeen (cuts : Cuts) (text : Bytes) : Token E → Option (Bytes × Bytes)
  | .field i colon value fpc =>
    if colon ≤ max i (cuts.base fpc) then none
    else some (slice text (max i (cuts.base fpc)) colon, slice text (max value (cuts.base fpc)) fpc)
  | _ => none

theorem stringArg_name {cuts : Cuts} {i colon p : Nat} (hat : cuts.At text p) (hc : colon ≤ p)
    (hne : ¬ colon ≤ max i (cuts.base p)) :
    stringArg ((cuts.buffer p).drop (i - cuts.base p))
        ((colon - cuts.base p) - (i - cuts.base p))
      = some (slice text (max i (cuts.base p)) colon) := by
  have hlt := hat.lt
  have hle := hat.base_le
  rw [stringArg_drop (by omega), ← hat.slice_eq i colon (by omega)]
  congr 2
  omega

/-! ## A register that is not reset -/

/-- The text that is seen of a token whose start is an offset into the read of this start. -/
def keptSeen (cuts : Cuts) (i p : Nat) : Option Bytes :=
  stringArg ((cuts.buffer p).drop (i - cuts.base i)) (len (i - cuts.base i) (p - cuts.base p))

/-- The whole token is seen exactly if no read ends inside of it. -/
theorem keptSeen_iff (htext : reads.flatten = text) (hsize : text.length < 2 ^ 63) {i p : Nat}
    (hi : i ≤ p) (hp : p < text.length) :
    keptSeen (Cuts.of reads) i p = some (slice text i p) ↔ (Cuts.of reads).base p ≤ i := by
  have hat := Cuts.at_of htext hp
  have hati := Cuts.at_of htext (p := i) (by omega)
  have hlt := hat.lt
  have hle := hat.base_le
  have hlei := hati.base_le
  constructor
  · intro hseen
    by_contra hbase
    -- the offset of the start is too large by what lies between the two reads
    have hlen := congrArg (Option.map List.length) hseen
    rw [Option.map_some, length_slice (by omega)] at hlen
    simp only [keptSeen, stringArg] at hlen
    split at hlen
    · next hfits =>
      rw [Option.map_some, Option.some.injEq, List.length_take_of_le hfits] at hlen
      unfold len at hlen
      split at hlen <;> omega
    · cases hlen
  · intro hbase
    have hsame := Cuts.base_eq htext hp hi hbase
    rw [keptSeen, hsame, stringArg_element hat hi, Nat.max_eq_left hbase]

/-- The rest of a token is the whole token exactly if nothing is missing. -/
theorem slice_max_iff {b i p : Nat} (hp : p ≤ text.length) (hi : i ≤ p) (hb : b ≤ p) :
    slice text (max i b) p = slice text i p ↔ b ≤ i := by
  constructor
  · intro h
    have hlen := congrArg List.length h
    rw [length_slice hp, length_slice hp] at hlen
    omega
  · intro h
    rw [Nat.max_eq_left h]

end Nemo.Http
