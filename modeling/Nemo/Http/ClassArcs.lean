import Nemo.Http.Table

/-!
# The arcs for the bytes of a class

What a table does with all bytes of a class is found by comparing the spans of the class with those of its
rows, and not byte by byte.
-/

namespace Nemo.Http

open Infra

/-- Every byte of `x` is one of `y`. -/
def Span.within (x y : Span) : Bool := y.lo ≤ x.lo && x.hi ≤ y.hi && (!y.relaxed || x.relaxed)

/-- No byte of `x` is one of `y`. -/
def Span.apart (x y : Span) : Bool := x.hi < y.lo || y.hi < x.lo

/-- Every byte of `c` is one of `c'`. -/
def Class.within (c c' : Class) : Bool := c.all fun x => c'.any x.within

/-- No byte of `c` is one of `c'`. -/
def Class.apart (c c' : Class) : Bool := c.all fun x => c'.all x.apart

variable {A : Type}

/-- The arc for all bytes of a span, if there is one. -/
def Span.arcIn (x : Span) : List (Row A) → Option (Arc Nat A)
  | [] => none
  | r :: rest =>
    if r.on.any x.within then some r.arc else if r.on.all x.apart then x.arcIn rest else none

/-- The bytes of a class have arcs in a state, and `P` holds of all of them. -/
def Class.goes (table : Table A) (c : Class) (q : Nat) (P : Arc Nat A → Bool) : Bool :=
  c.all fun x => (x.arcIn (table.rowsOf q)).any P

variable {uriRelaxed : Bool} {b : UInt8} {x y : Span}

theorem Span.contains_of_within (h : x.within y = true) (hb : x.contains uriRelaxed b = true) :
    y.contains uriRelaxed b = true := by
  simp only [within, contains, Bool.and_eq_true, Bool.or_eq_true, decide_eq_true_eq,
    Bool.not_eq_true'] at h hb ⊢
  refine ⟨⟨by omega, by omega⟩, ?_⟩
  rcases h.2 with hy | hx
  · exact .inl hy
  · rcases hb.2 with hx' | hu
    · rw [hx] at hx'
      cases hx'
    · exact .inr hu

theorem Span.not_contains_of_apart (h : x.apart y = true) (hb : x.contains uriRelaxed b = true) :
    y.contains uriRelaxed b = false := by
  simp only [apart, contains, Bool.and_eq_true, Bool.or_eq_true, decide_eq_true_eq] at h hb
  rw [contains, Bool.and_eq_false_iff, Bool.and_eq_false_iff]
  rcases h with h | h
  · exact .inl (.inl (decide_eq_false (by omega)))
  · exact .inl (.inr (decide_eq_false (by omega)))

theorem Class.contains_of_within {c c' : Class} (h : c.within c' = true)
    (hb : c.contains uriRelaxed b = true) : c'.contains uriRelaxed b = true := by
  obtain ⟨x, hx, hxb⟩ := List.any_eq_true.mp hb
  obtain ⟨y, hy, hxy⟩ := List.any_eq_true.mp (List.all_eq_true.mp h x hx)
  exact List.any_eq_true.mpr ⟨y, hy, Span.contains_of_within hxy hxb⟩

theorem Class.not_contains_of_apart {c c' : Class} (h : c.apart c' = true)
    (hb : c.contains uriRelaxed b = true) : c'.contains uriRelaxed b = false := by
  obtain ⟨x, hx, hxb⟩ := List.any_eq_true.mp hb
  refine List.any_eq_false.mpr fun y hy => ?_
  rw [Span.not_contains_of_apart (List.all_eq_true.mp (List.all_eq_true.mp h x hx) y hy) hxb]
  exact Bool.false_ne_true

/-- The first row that has the byte is the one that has its span. -/
theorem Span.find_arcIn {rows : List (Row A)} {arc : Arc Nat A} (h : x.arcIn rows = some arc)
    (hb : x.contains uriRelaxed b = true) :
    (rows.find? fun r => r.on.contains uriRelaxed b).map Row.arc = some arc := by
  induction rows with
  | nil => cases h
  | cons r rest ih =>
    rw [arcIn] at h
    split at h
    · next hany =>
      obtain ⟨y, hy, hwithin⟩ := List.any_eq_true.mp hany
      have hon : r.on.contains uriRelaxed b = true :=
        List.any_eq_true.mpr ⟨y, hy, contains_of_within hwithin hb⟩
      rw [List.find?_cons, hon]
      exact h
    · split at h
      · next hall =>
        have hon : r.on.contains uriRelaxed b = false :=
          List.any_eq_false.mpr fun y hy => by
            rw [not_contains_of_apart (List.all_eq_true.mp hall y hy) hb]
            exact Bool.false_ne_true
        rw [List.find?_cons, hon]
        exact ih h
      · cases h

/-- **The arc for a byte of the class.** -/
theorem Class.exists_arc {table : Table A} {c : Class} {q : Nat} {P : Arc Nat A → Bool}
    (h : c.goes table q P = true) (hb : c.contains uriRelaxed b = true) :
    ∃ arc, table.machine uriRelaxed q b = some arc ∧ P arc = true := by
  obtain ⟨x, hx, hxb⟩ := List.any_eq_true.mp hb
  have hx' := List.all_eq_true.mp h x hx
  cases harc : x.arcIn (table.rowsOf q) with
  | none =>
    rw [harc] at hx'
    cases hx'
  | some arc =>
    rw [harc] at hx'
    exact ⟨arc, x.find_arcIn harc hxb, hx'⟩

/-- The only arc for the bytes of the class. -/
theorem Class.arc_eq [DecidableEq A] {table : Table A} {c : Class} {q : Nat} {arc : Arc Nat A}
    (h : c.goes table q (· == arc) = true) (hb : c.contains uriRelaxed b = true) :
    table.machine uriRelaxed q b = some arc := by
  obtain ⟨arc', harc, heq⟩ := exists_arc h hb
  rwa [beq_iff_eq.mp heq] at harc

/-! ## Runs over the bytes of a class -/

section

open Automaton

variable {σ : Type} {f : A → Nat → σ → σ} {table : Table A} {c : Class} {q : Nat} [DecidableEq A]

theorem contains_byte {n : Nat} (hn : n < 256) : (byte n).contains uriRelaxed (UInt8.ofNat n) = true := by
  have htoNat : (UInt8.ofNat n).toNat = n := by rw [UInt8.toNat_ofNat', Nat.mod_eq_of_lt hn]
  simp [Class.contains, byte, Span.contains, htoNat]

/-- One byte. -/
theorem Class.exec_step {arc : Arc Nat A} (h : c.goes table q (· == arc) = true)
    (hs : arc.stops = false) (hb : c.contains uriRelaxed b = true) (p : Nat) (bs : Bytes) (s : σ) :
    (table.machine uriRelaxed).exec f q p (b :: bs) s =
      (table.machine uriRelaxed).exec f arc.target (p + 1) bs (perform f arc.actions p s) :=
  exec_of_goes (arc_eq h hb) hs

/-- Bytes for which the machine stays where it is. -/
theorem Class.exec_bytes (h : c.goes table q (· == ⟨q, [], false⟩) = true) {xs : Bytes}
    (hxs : ∀ b ∈ xs, c.contains uriRelaxed b = true) (p : Nat) (ys : Bytes) (s : σ) :
    (table.machine uriRelaxed).exec f q p (xs ++ ys) s =
      (table.machine uriRelaxed).exec f q (p + xs.length) ys s := by
  induction xs generalizing p with
  | nil => rfl
  | cons b rest ih =>
    obtain ⟨hb, hrest⟩ := List.forall_mem_cons.mp hxs
    rw [List.cons_append, exec_step h rfl hb, List.length_cons, Nat.add_comm rest.length, ← Nat.add_assoc]
    exact ih hrest (p + 1)

end

end Nemo.Http
