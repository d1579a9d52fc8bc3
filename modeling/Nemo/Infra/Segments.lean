import Mathlib.Data.List.GetD
import Nemo.Infra.Blocks

/-!
# Segments of a chain of blocks

A segment names a part of one block. `Tiles B p ss q` says that the segments `ss`, one after the other,
are the elements from the position `p` up to `q` of a chain of blocks of the length `B`.

`Tiles.flatMap_elements` — together they hold what the chain has there
-/

namespace Infra

/-- `length` elements of a block, from `offset` on. -/
structure Segment where
  block : Nat
  offset : Nat
  length : Nat
  deriving DecidableEq

namespace Segment

/-- Where the segment starts in the chain. -/
def start (B : Nat) (s : Segment) : Nat := s.block * B + s.offset

/-- The two segments do not overlap. -/
def Apart (B : Nat) (s t : Segment) : Prop :=
  s.start B + s.length ≤ t.start B ∨ t.start B + t.length ≤ s.start B

/-- What a chain has in the segment. -/
def elements {α : Type} (xss : List (List α)) (s : Segment) : List α :=
  slice (xss.getD s.block []) s.offset (s.offset + s.length)

end Segment

/-- The segments are, in this order, the positions from `p` up to `q`; none is empty. -/
def Tiles (B : Nat) : Nat → List Segment → Nat → Prop
  | p, [], q => p = q
  | p, s :: ss, q =>
    s.start B = p ∧ 0 < s.length ∧ s.offset + s.length ≤ B ∧ Tiles B (p + s.length) ss q

/-- A part of a chain that lies in one block. -/
theorem Blocks.slice_flatten {α : Type} {B : Nat} {xss : List (List α)} (h : Blocks B xss)
    {i o l : Nat} (hi : i < xss.length) (hl : o + l ≤ B) :
    slice xss.flatten (i * B + o) (i * B + o + l) = slice (xss.getD i []) o (o + l) := by
  have hblock : (xss.getD i []).length = B := by
    rw [List.getD_eq_getElem _ _ hi]
    exact h _ (List.getElem_mem hi)
  have hdrop : xss.drop i = xss.getD i [] :: xss.drop (i + 1) := by
    rw [List.getD_eq_getElem _ _ hi]
    exact List.drop_eq_getElem_cons hi
  have hfront : xss.flatten.drop (i * B) = xss.getD i [] ++ (xss.drop (i + 1)).flatten := by
    rw [← h.flatten_drop, hdrop, List.flatten_cons]
  rw [slice, ← List.drop_drop, hfront, Nat.add_sub_cancel_left, ← slice_append_left (by omega)
    (xss.drop (i + 1)).flatten, slice, Nat.add_sub_cancel_left]

namespace Tiles

variable {B p q : Nat} {s : Segment} {ss : List Segment}

theorem le (h : Tiles B p ss q) : p ≤ q := by
  induction ss generalizing p with
  | nil => exact Nat.le_of_eq h
  | cons s ss ih =>
    obtain ⟨-, -, -, hrest⟩ := h
    exact Nat.le_trans (Nat.le_add_right p s.length) (ih hrest)

/-- Each segment is not empty, and lies in its block and between the two ends. -/
theorem of_mem (h : Tiles B p ss q) (hs : s ∈ ss) :
    0 < s.length ∧ s.offset + s.length ≤ B ∧ p ≤ s.start B ∧ s.start B + s.length ≤ q := by
  induction ss generalizing p with
  | nil => cases hs
  | cons t ss ih =>
    obtain ⟨hstart, hpos, hin, hrest⟩ := h
    rcases List.mem_cons.mp hs with rfl | hs
    · exact ⟨hpos, hin, Nat.le_of_eq hstart.symm, hstart ▸ hrest.le⟩
    · obtain ⟨hpos', hin', hle, hle'⟩ := ih hrest hs
      exact ⟨hpos', hin', Nat.le_of_add_right_le hle, hle'⟩

theorem flatMap_elements {α : Type} {xss : List (List α)} (hb : Blocks B xss) (h : Tiles B p ss q)
    (hq : q ≤ xss.length * B) : ss.flatMap (Segment.elements xss) = slice xss.flatten p q := by
  induction ss generalizing p with
  | nil =>
    obtain rfl : p = q := h
    rw [slice_self]
    rfl
  | cons s ss ih =>
    obtain ⟨rfl, hpos, hin, hrest⟩ := h
    have hle := hrest.le
    have hblock : s.block < xss.length := by
      have hlt : s.block * B < xss.length * B := by
        unfold Segment.start at hle
        omega
      exact Nat.lt_of_mul_lt_mul_right hlt
    rw [List.flatMap_cons, ih hrest, Segment.elements, ← hb.slice_flatten hblock hin]
    exact slice_append_slice (Nat.le_add_right _ _) hle

end Tiles

end Infra
