import Nemo.Infra.Automaton

/-!
# Transition tables

The generated parsers are tables: for every state the bytes that it has an arc for. A byte without
an arc is an error. Both the machine of the requests and that of the responses are such a `Table`.
-/

namespace Nemo.Http

open Infra

/-- A string of the source: its bytes. -/
abbrev Bytes := List UInt8

/-- The bytes of an ASCII literal. -/
def ascii (s : String) : Bytes := s.toList.map fun c => UInt8.ofNat c.toNat

/-- What is checked for the numbers below 256 holds of every byte. -/
theorem forall_byte {P : UInt8 → Bool}
    (h : ((List.range 256).all fun n => P (UInt8.ofNat n)) = true) (b : UInt8) : P b = true := by
  have hb := List.all_eq_true.mp h b.toNat (List.mem_range.mpr b.toNat_lt)
  rwa [UInt8.ofNat_toNat] at hb

/-! ## Byte classes -/

/-- The bytes from `lo` to `hi`; if `relaxed` is set, only when the parser's `uri_relaxed` is. -/
structure Span where
  lo : Nat
  hi : Nat
  relaxed : Bool := false

/-- A class of bytes is a union of spans. -/
abbrev Class := List Span

def Span.contains (x : Span) (uriRelaxed : Bool) (b : UInt8) : Bool :=
  x.lo ≤ b.toNat && b.toNat ≤ x.hi && (!x.relaxed || uriRelaxed)

def Class.contains (c : Class) (uriRelaxed : Bool) (b : UInt8) : Bool :=
  c.any fun x => x.contains uriRelaxed b

/-- `P` holds of every byte of the class. -/
def Class.check (c : Class) (P : UInt8 → Bool) : Bool :=
  (List.range 256).all fun n => !c.contains true (UInt8.ofNat n) || P (UInt8.ofNat n)

theorem Class.contains_true {c : Class} {uriRelaxed : Bool} {b : UInt8}
    (hb : c.contains uriRelaxed b = true) : c.contains true b = true := by
  obtain ⟨x, hx, hxb⟩ := List.any_eq_true.mp hb
  refine List.any_eq_true.mpr ⟨x, hx, ?_⟩
  simp only [Span.contains, Bool.and_eq_true, Bool.or_true, and_true] at hxb ⊢
  exact hxb.1

theorem Class.of_check {c : Class} {P : UInt8 → Bool} (h : c.check P = true) {uriRelaxed : Bool}
    {b : UInt8} (hb : c.contains uriRelaxed b = true) : P b = true := by
  have hall := forall_byte (P := fun b => !c.contains true b || P b) h b
  simpa [contains_true hb] using hall

def byte (n : Nat) : Class := [{ lo := n, hi := n }]
def bytes (lo hi : Nat) : Class := [{ lo := lo, hi := hi }]
def is (c : Char) : Class := byte c.toNat
def upTo (lo hi : Char) : Class := bytes lo.toNat hi.toNat
def relaxed (c : Char) : Class := [{ lo := c.toNat, hi := c.toNat, relaxed := true }]

def digit : Class := upTo '0' '9'
def hexAlpha : Class := upTo 'A' 'F' ++ upTo 'a' 'f'
def xdigit : Class := digit ++ hexAlpha
def upper : Class := upTo 'A' 'Z'
def alpha : Class := upper ++ upTo 'a' 'z'

/-! ## Tables -/

/-- The arcs of one state to one target. -/
structure Row (A : Type) where
  on : Class
  arc : Arc Nat A

def on {A : Type} (c : Class) (target : Nat) (actions : List A := []) : Row A :=
  ⟨c, ⟨target, actions, false⟩⟩

/-- An arc with `fbreak`. -/
def stop {A : Type} (c : Class) (target : Nat) (actions : List A) : Row A :=
  ⟨c, ⟨target, actions, true⟩⟩

/-- The rows of every state. -/
abbrev Table (A : Type) := List (Nat × List (Row A))

namespace Table

variable {A : Type}

/-- The rows of a state. -/
def rowsOf (table : Table A) (q : Nat) : List (Row A) := (table.lookup q).getD []

/-- The automaton of a table. -/
def machine (table : Table A) (uriRelaxed : Bool) : Automaton Nat A UInt8 := fun q b =>
  ((table.rowsOf q).find? fun r => r.on.contains uriRelaxed b).map Row.arc

/-- Every arc comes from a row of its state. -/
theorem exists_row {table : Table A} {uriRelaxed : Bool} {q : Nat} {b : UInt8} {arc : Arc Nat A}
    (harc : table.machine uriRelaxed q b = some arc) :
    ∃ r ∈ table.rowsOf q, r.arc = arc ∧ r.on.contains uriRelaxed b = true := by
  unfold machine at harc
  obtain ⟨r, hr, rfl⟩ := Option.map_eq_some_iff.mp harc
  exact ⟨r, List.mem_of_find?_eq_some hr, rfl,
    List.find?_some (p := fun r : Row A => r.on.contains uriRelaxed b) hr⟩

/-- What holds of every row of the table holds of every arc of the machine. -/
theorem machine_of_all {table : Table A} {P : Nat → Row A → Bool}
    (h : table.all (fun e => e.2.all (P e.1)) = true) {uriRelaxed : Bool} {q : Nat} {b : UInt8}
    {arc : Arc Nat A} (harc : table.machine uriRelaxed q b = some arc) :
    ∃ r, r.arc = arc ∧ r.on.contains uriRelaxed b = true ∧ P q r = true := by
  obtain ⟨r, hmem, hr, hon⟩ := exists_row harc
  refine ⟨r, hr, hon, ?_⟩
  unfold rowsOf at hmem
  cases hrows : table.lookup q with
  | none => simp [hrows] at hmem
  | some rows =>
    rw [hrows, Option.getD_some] at hmem
    have htable : (q, rows) ∈ table := by
      obtain ⟨l₁, l₂, hl, -⟩ := List.lookup_eq_some_iff.mp hrows
      rw [hl]
      exact List.mem_append_right _ (List.mem_cons_self ..)
    rw [List.all_eq_true] at h
    exact List.all_eq_true.mp (h _ htable) r hmem

end Table

end Nemo.Http
