import Mathlib.Data.List.Induction
import Nemo.Http.Table

/-!
# The lines of a head

`Mode.next` reads a head line by line: the request line, header lines with a name and a colon,
and the first empty line. A header line whose name part is not closed by a colon, or holds a control
byte, makes it `dirty`.

`EmptyLineEnds` says where a text has an empty line, without reading it line by line;
`modeOf_empty_line` connects the two.
-/

namespace Nemo.Http

/-- The ASCII control bytes. -/
def isControl (b : UInt8) : Bool := b.toNat < 32 || b.toNat == 127

/-- The separators of HTTP. -/
def isSeparator (b : UInt8) : Bool := (ascii "()<>@,;:\\\"/[]?=\x7b\x7d \t").contains b

/-- Where a reader of the lines is. -/
inductive Mode
  | requestLine
  | lineStart
  /-- after a carriage return at the start of a line -/
  | cr
  | name
  | value
  /-- behind the first empty line -/
  | headEnd
  /-- behind a header line that is no `name: value` -/
  | dirty
  deriving DecidableEq, Repr

def Mode.next : Mode → UInt8 → Mode
  | .requestLine, b => if b = 10 then .lineStart else .requestLine
  | .lineStart, b =>
    if b = 10 then .headEnd
    else if b = 13 then .cr
    else if isControl b || b == 58 then .dirty
    else .name
  | .cr, b => if b = 10 then .headEnd else .dirty
  | .name, b => if b = 58 then .value else if isControl b then .dirty else .name
  | .value, b => if b = 10 then .lineStart else .value
  | .headEnd, _ => .headEnd
  | .dirty, _ => .dirty

def modeOf (text : Bytes) : Mode := text.foldl Mode.next .requestLine

/--
Every line between the request line and the first empty line has a name and a colon, with no control
byte before the colon.
-/
def CleanHead (text : Bytes) : Prop := modeOf text = .headEnd

instance (text : Bytes) : Decidable (CleanHead text) := inferInstanceAs (Decidable (_ = _))

theorem modeOf_snoc (text : Bytes) (b : UInt8) : modeOf (text ++ [b]) = (modeOf text).next b :=
  List.foldl_concat ..

/-- What follows the head, or a dirty line, changes nothing. -/
theorem modeOf_append_of_ended {xs : Bytes} (h : modeOf xs = .headEnd ∨ modeOf xs = .dirty)
    (ys : Bytes) : modeOf (xs ++ ys) = modeOf xs := by
  have habs : ∀ m : Mode, m = .headEnd ∨ m = .dirty → ys.foldl Mode.next m = m := by
    intro m hm
    induction ys with
    | nil => rfl
    | cons b bs ih =>
      have hnext : m.next b = m := by rcases hm with rfl | rfl <;> rfl
      rw [List.foldl_cons, hnext, ih]
  rw [modeOf, List.foldl_append]
  exact habs _ h

/-! ## Empty lines -/

/-- At `k` an empty line ends: a line end that stands right behind a line end. -/
def EmptyLineEnds (text : Bytes) (k : Nat) : Prop :=
  [10, 10] <:+ text.take k ∨ [10, 13, 10] <:+ text.take k

/-- The first empty line of a text ends at `k`. -/
def FirstEmptyLineEnds (text : Bytes) (k : Nat) : Prop :=
  EmptyLineEnds text k ∧ ∀ i < k, ¬ EmptyLineEnds text i

/-- No empty line ends in the text. -/
def NoEmptyLine (text : Bytes) : Prop := ∀ k ≤ text.length, ¬ EmptyLineEnds text k

theorem noEmptyLine_snoc {xs : Bytes} (h : NoEmptyLine xs) {b : UInt8}
    (hb : b = 10 → ¬ [10] <:+ xs ∧ ¬ [10, 13] <:+ xs) : NoEmptyLine (xs ++ [b]) := by
  intro k hk hends
  rw [List.length_append, List.length_singleton] at hk
  by_cases hlast : k ≤ xs.length
  · refine h k hlast ?_
    unfold EmptyLineEnds at hends ⊢
    rwa [List.take_append_of_le_length hlast] at hends
  · have hk' : (xs ++ [b]).take k = xs ++ [b] := List.take_of_length_le (by simp; omega)
    unfold EmptyLineEnds at hends
    rw [hk'] at hends
    rcases hends with ⟨ys, hys⟩ | ⟨ys, hys⟩
    · have hsplit : (ys ++ [10]) ++ [10] = xs ++ [b] := by rw [← hys]; simp
      obtain ⟨rfl, hb10⟩ := List.append_inj' hsplit rfl
      exact (hb (by simpa using hb10.symm)).1 ⟨ys, rfl⟩
    · have hsplit : (ys ++ [10, 13]) ++ [10] = xs ++ [b] := by rw [← hys]; simp
      obtain ⟨rfl, hb10⟩ := List.append_inj' hsplit rfl
      exact (hb (by simpa using hb10.symm)).2 ⟨ys, rfl⟩

/-- How the text ends that has led to a mode. -/
def Mode.EndsWith : Mode → Bytes → Prop
  | .requestLine, xs | .value, xs => ¬ [10] <:+ xs ∧ ¬ [10, 13] <:+ xs
  | .lineStart, xs => [10] <:+ xs
  | .cr, xs => [10, 13] <:+ xs
  | _, _ => True

theorem not_suffix_of_ne {xs l : Bytes} {a b : UInt8} (h : a ≠ b) : ¬ l ++ [a] <:+ xs ++ [b] := by
  rintro ⟨zs, hzs⟩
  rw [← List.append_assoc] at hzs
  exact h (by simpa using (List.append_inj' hzs rfl).2)

theorem not_crlf_suffix {xs : Bytes} {b : UInt8} (h : ¬ [10] <:+ xs) :
    ¬ [10, 13] <:+ xs ++ [b] := by
  rintro ⟨zs, hzs⟩
  have hsplit : (zs ++ [10]) ++ [13] = xs ++ [b] := by rw [← hzs]; simp
  exact h ⟨zs, (List.append_inj' hsplit rfl).1⟩

/-- Until the reader is behind the head or in a dirty line, it has not met an empty line. -/
theorem modeOf_endsWith (xs : Bytes) :
    (modeOf xs).EndsWith xs ∧
      (modeOf xs ≠ .headEnd → modeOf xs ≠ .dirty → NoEmptyLine xs) := by
  induction xs using List.reverseRecOn with
  | nil =>
    refine ⟨⟨by simp, by simp⟩, fun _ _ k hk => ?_⟩
    simp [EmptyLineEnds]
  | append_singleton xs b ih =>
    obtain ⟨hends, hno⟩ := ih
    rw [modeOf_snoc]
    cases hm : modeOf xs with
    | requestLine | value =>
      rw [hm] at hends hno
      obtain ⟨h10, h13⟩ := hends
      have hno' := noEmptyLine_snoc (hno nofun nofun) (b := b) fun _ => ⟨h10, h13⟩
      by_cases hb : b = 10
      · subst hb
        exact ⟨⟨xs, rfl⟩, fun _ _ => hno'⟩
      · simp only [Mode.next, hb, if_false]
        exact ⟨⟨not_suffix_of_ne (l := []) (Ne.symm hb), not_crlf_suffix h10⟩, fun _ _ => hno'⟩
    | lineStart =>
      rw [hm] at hends hno
      by_cases hb : b = 10
      · subst hb
        exact ⟨trivial, fun h => absurd rfl h⟩
      have hno' := noEmptyLine_snoc (hno nofun nofun) fun h => absurd h hb
      by_cases hcr : b = 13
      · subst hcr
        obtain ⟨ys, rfl⟩ := hends
        exact ⟨⟨ys, by simp⟩, fun _ _ => hno'⟩
      simp only [Mode.next, hb, hcr, if_false]
      split
      · exact ⟨trivial, fun _ h => absurd rfl h⟩
      · exact ⟨trivial, fun _ _ => hno'⟩
    | cr =>
      by_cases hb : b = 10
      · subst hb
        exact ⟨trivial, fun h => absurd rfl h⟩
      · simp only [Mode.next, hb, if_false]
        exact ⟨trivial, fun _ h => absurd rfl h⟩
    | name =>
      rw [hm] at hno
      by_cases hcolon : b = 58
      · subst hcolon
        have h10 : ¬ [10] <:+ xs ++ [58] := not_suffix_of_ne (l := []) (by decide)
        have h13 : ¬ [10, 13] <:+ xs ++ [58] := not_suffix_of_ne (l := [10]) (by decide)
        exact ⟨⟨h10, h13⟩, fun _ _ =>
          noEmptyLine_snoc (hno nofun nofun) fun h => absurd h (by decide)⟩
      · simp only [Mode.next, hcolon, if_false]
        split
        · exact ⟨trivial, fun _ h => absurd rfl h⟩
        · next hctl =>
          refine ⟨trivial, fun _ _ => noEmptyLine_snoc (hno nofun nofun) ?_⟩
          rintro rfl
          exact absurd (by decide) hctl
    | headEnd => exact ⟨trivial, fun h => absurd rfl h⟩
    | dirty => exact ⟨trivial, fun _ h => absurd rfl h⟩

/-- **The reader stops at the first empty line.** -/
theorem modeOf_empty_line {xs : Bytes} (h : modeOf xs = .lineStart ∨ modeOf xs = .cr) (ys : Bytes) :
    FirstEmptyLineEnds (xs ++ [10] ++ ys) (xs.length + 1) := by
  have htake : (xs ++ [10] ++ ys).take (xs.length + 1) = xs ++ [10] :=
    List.take_left' List.length_append
  obtain ⟨hends, hno⟩ := modeOf_endsWith xs
  constructor
  · unfold EmptyLineEnds
    rw [htake]
    rcases h with h | h
    · rw [h] at hends
      obtain ⟨zs, rfl⟩ := hends
      exact .inl ⟨zs, by simp⟩
    · rw [h] at hends
      obtain ⟨zs, rfl⟩ := hends
      exact .inr ⟨zs, by simp⟩
  · intro i hi hi'
    refine hno ?_ ?_ i (by omega) ?_
    · rcases h with h | h <;> rw [h] <;> nofun
    · rcases h with h | h <;> rw [h] <;> nofun
    · unfold EmptyLineEnds at hi' ⊢
      rwa [List.append_assoc, List.take_append_of_le_length (by omega)] at hi'

end Nemo.Http
