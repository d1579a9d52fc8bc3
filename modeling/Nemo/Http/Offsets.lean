import Mathlib.Algebra.Group.Nat.Defs
import Nemo.Http.Table

/-!
# Offsets: what the registers of a parser stand for

Both parsers keep `mark`, `field_start` and `field_len` as offsets into the buffer of the current
call, and set them to zero when a call begins. A machine reads the same bytes however they are
cut into buffers; here its registers are compared with the positions in the whole text.

What a callback is given is a token as far as it is still in the buffer (`Token.seen`):

* a mark that was set in an earlier buffer has become the start of the current one
* a header name whose colon was in an earlier buffer has length zero
* a register that is not reset is an offset into a buffer that is gone
-/

namespace Nemo.Http

open Infra

/-! ## Registers and reports -/

/-- The registers that are set to zero when a call begins. -/
structure Offsets where
  mark : Nat := 0
  fieldStart : Nat := 0
  fieldLen : Nat := 0
  deriving DecidableEq, Repr

/-- `LEN(AT, FPC)`, a subtraction of `size_t`s. -/
def len (start fpc : Nat) : Nat := if start ≤ fpc then fpc - start else 2 ^ 64 - (start - fpc)

theorem len_of_le {start fpc : Nat} (h : start ≤ fpc) : len start fpc = fpc - start := if_pos h

/-- A call of a callback. A pointer is the part of the buffer that it points to. -/
inductive Report (E : Type)
  /-- an `element_cb` -/
  | element (e : E) (text : Bytes) (length : Nat)
  /-- the `field_cb` -/
  | field (name : Bytes) (flen : Nat) (value : Bytes) (vlen : Nat)
  deriving DecidableEq, Repr

/-- The string of a pointer and a length. `none` if it is not in the buffer. -/
def stringArg (text : Bytes) (length : Nat) : Option Bytes :=
  if length ≤ text.length then some (text.take length) else none

variable {E : Type}

/-- An element callback with `PTR_TO(start)` and `LEN(start, fpc)`. -/
def element (e : E) (buffer : Bytes) (start fpc : Nat) : Report E :=
  .element e (buffer.drop start) (len start fpc)

/-- The field callback, made at `fpc`. -/
def Offsets.field (o : Offsets) (buffer : Bytes) (fpc : Nat) : Report E :=
  .field (buffer.drop o.fieldStart) o.fieldLen (buffer.drop o.mark) (len o.mark fpc)

/-! ## Positions in the text -/

/-- The positions at which the marking actions have run. -/
structure Marks where
  mark : Nat := 0
  fieldStart : Nat := 0
  /-- `fieldStart` when the last header name was complete -/
  nameStart : Nat := 0
  colon : Nat := 0
  deriving DecidableEq, Repr

/-- A token, with the positions that its callback is about. -/
inductive Token (E : Type)
  | element (e : E) (start fpc : Nat)
  /-- a token whose start is in a register that is not reset -/
  | kept (e : E) (start fpc : Nat)
  /-- a header line: start and end of the name, start and end of the value -/
  | field (start colon value fpc : Nat)
  /-- the end of the head -/
  | done (e : E) (fpc : Nat)
  deriving DecidableEq, Repr

/-- The buffers of a text: for each position the start of the buffer it is in, and this buffer. -/
structure Cuts where
  base : Nat → Nat
  buffer : Nat → Bytes

/-- The callback for a token, made when the position `fpc` is reached. -/
def Token.seen (cuts : Cuts) : Token E → Report E
  | .element e i fpc =>
    Http.element e (cuts.buffer fpc) (i - cuts.base fpc) (fpc - cuts.base fpc)
  | .kept e i fpc => Http.element e (cuts.buffer fpc) (i - cuts.base i) (fpc - cuts.base fpc)
  | .field i colon value fpc =>
    .field ((cuts.buffer fpc).drop (i - cuts.base fpc))
      ((colon - cuts.base fpc) - (i - cuts.base fpc))
      ((cuts.buffer fpc).drop (value - cuts.base fpc))
      (len (value - cuts.base fpc) (fpc - cuts.base fpc))
  | .done e fpc =>
    .element e ((cuts.buffer fpc).drop (fpc - cuts.base fpc + 1))
      ((cuts.buffer fpc).length - (fpc - cuts.base fpc) - 1)

/-! ## Registers that follow the marks -/

/-- The registers of a call whose buffer starts at `b`. No mark is beyond `hi`. -/
structure Offsets.Reads (b hi : Nat) (o : Offsets) (m : Marks) : Prop where
  mark : o.mark = m.mark - b
  mark_le : m.mark ≤ hi
  fieldStart : o.fieldStart = m.fieldStart - b
  fieldStart_le : m.fieldStart ≤ hi
  fieldLen : o.fieldLen = (m.colon - b) - (m.nameStart - b)
  nameStart_le : m.nameStart ≤ m.colon
  colon_le : m.colon ≤ hi

/-- No mark is beyond `n`. -/
structure Marks.Below (n : Nat) (m : Marks) : Prop where
  mark_le : m.mark ≤ n
  fieldStart_le : m.fieldStart ≤ n
  nameStart_le : m.nameStart ≤ m.colon
  colon_le : m.colon ≤ n

namespace Offsets.Reads

variable {b hi hi' p : Nat} {o : Offsets} {m : Marks}

theorem below (h : Reads b hi o m) : m.Below hi :=
  ⟨h.mark_le, h.fieldStart_le, h.nameStart_le, h.colon_le⟩

/-- A new buffer starts at `b`: every mark is behind it. -/
theorem fresh (h : m.Below (b - 1)) : Reads b (b - 1) {} m := by
  obtain ⟨h1, h2, h3, h4⟩ := h
  refine ⟨?_, h1, ?_, h2, ?_, h3, h4⟩
  · show 0 = m.mark - b
    omega
  · show 0 = m.fieldStart - b
    omega
  · show 0 = (m.colon - b) - (m.nameStart - b)
    omega

theorem weaken (h : Reads b hi o m) (hle : hi ≤ hi') : Reads b hi' o m := by
  obtain ⟨h1, h2, h3, h4, h5, h6, h7⟩ := h
  constructor <;> omega

theorem setMark (h : Reads b (p + b) o m) :
    Reads b (p + b) { o with mark := p } { m with mark := p + b } := by
  obtain ⟨h1, h2, h3, h4, h5, h6, h7⟩ := h
  constructor <;> dsimp only <;> omega

theorem setFieldStart (h : Reads b (p + b) o m) :
    Reads b (p + b) { o with fieldStart := p } { m with fieldStart := p + b } := by
  obtain ⟨h1, h2, h3, h4, h5, h6, h7⟩ := h
  constructor <;> dsimp only <;> omega

/-- The end of a name: its length is what lies in this buffer. -/
theorem setFieldLen (h : Reads b (p + b) o m) :
    Reads b (p + b) { o with fieldLen := len o.fieldStart p }
      { m with nameStart := m.fieldStart, colon := p + b } := by
  obtain ⟨h1, h2, h3, h4, h5, h6, h7⟩ := h
  have hle : o.fieldStart ≤ p := by omega
  rw [len_of_le hle]
  constructor <;> dsimp only <;> omega

/-- The callback for an element is the token as it is seen in this buffer. -/
theorem element_seen {cuts : Cuts} {buffer : Bytes} (hbase : cuts.base (p + b) = b)
    (hbuf : cuts.buffer (p + b) = buffer) (h : Reads b hi o m) (e : E) :
    Http.element e buffer o.mark p = (Token.element e m.mark (p + b)).seen cuts := by
  simp only [Token.seen, hbase, hbuf, h.mark, Nat.add_sub_cancel]

/-- The callback for a field is the header line as it is seen in this buffer. -/
theorem field_seen {cuts : Cuts} {buffer : Bytes} (hbase : cuts.base (p + b) = b)
    (hbuf : cuts.buffer (p + b) = buffer) (h : Reads b hi o m) (hname : m.nameStart = m.fieldStart) :
    o.field buffer p = (Token.field m.nameStart m.colon m.mark (p + b) : Token E).seen cuts := by
  simp only [Token.seen, Offsets.field, hbase, hbuf, h.mark, h.fieldLen, h.fieldStart, hname,
    Nat.add_sub_cancel]

end Offsets.Reads

/-! ## The buffers of a sequence of reads -/

/-- The buffer of a position, and its start, when the reads begin at `b`. -/
def placeOf : Nat → List Bytes → Nat → Nat × Bytes
  | b, [], _ => (b, [])
  | b, s :: ss, p => if p < b + s.length then (b, s) else placeOf (b + s.length) ss p

/-- The reads of a text from its beginning. -/
def Cuts.of (reads : List Bytes) : Cuts where
  base p := (placeOf 0 reads p).1
  buffer p := (placeOf 0 reads p).2

/-- The positions of one buffer that starts at `b`. -/
def Cuts.Covers (cuts : Cuts) (b : Nat) (buffer : Bytes) : Prop :=
  ∀ p, p < buffer.length → cuts.base (p + b) = b ∧ cuts.buffer (p + b) = buffer

theorem placeOf_append (b p : Nat) (xs : List Bytes) (s : Bytes) (ys : List Bytes)
    (hp : p < s.length) :
    placeOf b (xs ++ s :: ys) (p + (b + xs.flatten.length)) = (b + xs.flatten.length, s) := by
  induction xs generalizing b with
  | nil =>
    have hlt : p + b < b + s.length := by omega
    simp [placeOf, hlt]
  | cons x xs ih =>
    have hge : ¬ p + (b + (x :: xs).flatten.length) < b + x.length := by
      rw [List.flatten_cons, List.length_append]
      omega
    rw [List.cons_append, placeOf, if_neg hge]
    rw [List.flatten_cons, List.length_append, ← Nat.add_assoc b]
    exact ih (b + x.length)

theorem Cuts.covers_of (xs : List Bytes) (s : Bytes) (ys : List Bytes) :
    (Cuts.of (xs ++ s :: ys)).Covers xs.flatten.length s := by
  intro p hp
  have h := placeOf_append 0 p xs s ys hp
  rw [Nat.zero_add] at h
  simp only [Cuts.of, h, and_self]

end Nemo.Http
