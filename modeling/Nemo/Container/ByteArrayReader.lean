import Nemo.Container.ByteArrayFifo

/-!
# Writing first, then reading

A `ByteArray` that is written first and read afterwards. A function that reads is a `Reader`, which
can throw, or follow a null pointer.

* `Writes w bytes` — `w` appends `bytes`, for which the first node has room
* `Reads rd bytes a` — in front of `bytes`, `rd` returns `a` and leaves the cursor behind them
* `Consumes rd P` — whatever is read, `P` relates it to the number of bytes that it takes

All three are proved of a function from what it calls. Written bytes are read as long as the cursor has
not come to their end, so a whole list is read as it was written (`Writes.all`, `Reads.all`).
-/

namespace Nemo.ByteArray

open Infra

/-! ## The cursor -/

/-- How many bytes are in front of the cursor, which is null at the end of the chain. -/
def position (b : ByteArray) : Nat :=
  match b.currentNode with
  | some i => i * b.blockSize + b.currNodePosition
  | none => b.nodes.length * b.blockSize

/-- `getTotalBytes`. -/
def getTotalBytes (b : ByteArray) : Nat := (b.nodeCount - 1) * b.blockSize + b.lastNodeBytesUsed

/-- `b` stores `ws`, and those before `r` have been read. -/
structure Holds (b : ByteArray) (ws : List Byte) (r : Nat) : Prop where
  stored : Stored b ws
  le : r ≤ ws.length
  cursor : CursorAt b r ∨
    b.currentNode = none ∧ r = ws.length ∧ r = b.nodes.length * b.blockSize

/-- The cursor is in the chain, or null. -/
def Placed (b : ByteArray) : Prop := CursorAt b b.position ∨ b.currentNode = none

variable {b b' : ByteArray} {ws : List Byte} {r : Nat}

theorem Stored.getTotalBytes_eq (h : Stored b ws) : b.getTotalBytes = ws.length := by
  rw [getTotalBytes, ← h.last, h.length_eq]
  rfl

theorem CursorAt.position_eq (h : CursorAt b r) : b.position = r := by
  obtain ⟨-, i, -, hcur, hr⟩ := h
  rw [position, hcur]
  exact hr

theorem CursorAt.placed (h : CursorAt b r) : Placed b := .inl (h.position_eq.symm ▸ h)

namespace Holds

theorem position_eq (h : Holds b ws r) : b.position = r := by
  rcases h.cursor with hc | ⟨hnull, -, hr⟩
  · exact hc.position_eq
  · rw [position, hnull]
    exact hr.symm

theorem placed (h : Holds b ws r) : Placed b :=
  h.cursor.elim CursorAt.placed fun hnull => .inr hnull.1

theorem getTotalBytes_eq (h : Holds b ws r) : b.getTotalBytes = ws.length := h.stored.getTotalBytes_eq

theorem of_cursorAt (h : Stored b ws) (hc : CursorAt b r) (hr : r ≤ ws.length) : Holds b ws r :=
  ⟨h, hr, .inl hc⟩

/-- A read of bytes that have not been read. -/
theorem read (h : Holds b ws r) (size : Nat) (hn : r + size ≤ ws.length) :
    ∃ b', b.read size = some (.ok (slice ws r (r + size)), b') ∧ Holds b' ws (r + size) := by
  rcases h.cursor with hc | ⟨hnull, hall, hend⟩
  · obtain ⟨b', hread, h', hsize, -, hend, hlive⟩ := read_eq h.stored hc size hn
    refine ⟨b', hread, h', hn, ?_⟩
    by_cases hdone : r + size = b.nodes.length * b.blockSize
    · have hle := h.stored.stored_le
      have hroom := h.stored.room
      obtain ⟨b₁, hread₁, -, -, -, hnodes, -⟩ :=
        read_chain h.stored hc size (by omega) (by omega) (by omega)
      obtain rfl : b' = b₁ := congrArg Prod.snd (Option.some.inj (hread.symm.trans hread₁))
      exact .inr ⟨hend hdone, by omega, by rw [hnodes, hsize, hdone]⟩
    · exact .inl (hlive hdone)
  · -- everything has been read, so nothing is asked for
    obtain rfl : size = 0 := by omega
    refine ⟨b, ?_, h⟩
    rw [read_null h.stored hnull 0 (Nat.zero_le _), if_pos rfl, Nat.add_zero, slice_self]

end Holds

/-- Whatever a read gives, the cursor moves by the size that was asked for. -/
theorem position_of_read {size : Nat} {bytes : List Byte} (h : Stored b ws) (hp : Placed b)
    (hread : b.read size = some (.ok bytes, b')) :
    bytes.length = size ∧ b'.position = b.position + size ∧ Placed b' := by
  have hle : size ≤ ws.length := by
    by_contra hlt
    rw [read_outOfRange h size (Nat.not_le.mp hlt)] at hread
    cases hread
  rcases hp with hc | hnull
  · by_cases hin : b.position + size ≤ b.nodes.length * b.blockSize
    · -- a read that has a result stays in the memory of the first node
      have hroom : b.position < b.blockSize → min b.blockSize (b.position + size) ≤ b.firstSize := by
        rcases read_cases hread with ⟨-, heq, -⟩ | ⟨bytes', chain, nodePos, -, hbytes, -⟩
        · cases heq
        · exact (hc.hasBytes_iff size).mp hbytes
      obtain ⟨b₁, hread₁, -, hsize, -, hnodes, hend, hlive⟩ := read_chain h hc size hle hroom hin
      rw [hread] at hread₁
      cases hread₁
      refine ⟨?_, ?_, ?_⟩
      · rw [length_slice (by rwa [h.blocks.length_flatten]), Nat.add_sub_cancel_left]
      · by_cases hdone : b.position + size = b.nodes.length * b.blockSize
        · rw [hdone, position, hend hdone]
          show b'.nodes.length * b'.blockSize = _
          rw [hnodes, hsize]
        · exact (hlive hdone).position_eq
      · by_cases hdone : b.position + size = b.nodes.length * b.blockSize
        · exact .inr (hend hdone)
        · exact (hlive hdone).placed
    · rw [read_beyond h hc hle (Nat.not_le.mp hin)] at hread
      cases hread
  · rw [read_null h hnull size hle] at hread
    split at hread
    · next h0 =>
      cases hread
      exact ⟨h0.symm, by rw [h0, Nat.add_zero], .inr hnull⟩
    · cases hread

/-- Whatever is called, the cursor is in the chain or null. -/
theorem run_placed {ops : List (Fifo.Op Byte)} {results : List (Except OutOfRange (List Byte))}
    (h : Stored b ws) (hp : Placed b) (hrun : b.run ops = some (results, b')) :
    (∃ ws', Stored b' ws') ∧ Placed b' := by
  induction ops generalizing b ws results with
  | nil =>
    cases hrun
    exact ⟨⟨ws, h⟩, hp⟩
  | cons op ops ih =>
    cases op with
    | write buf =>
      obtain ⟨b₁, hwrite, hrun⟩ := Option.bind_eq_some_iff.mp (hrun : _ = _)
      obtain ⟨h₁, hsize, -, hcur, hpos, hlen⟩ := stored_of_write h hwrite
      refine ih h₁ ?_ hrun
      rcases hp with hc | hnull
      · exact (hc.of_write hsize hcur hpos hlen).placed
      · exact .inr (hcur.trans hnull)
    | read size =>
      obtain ⟨⟨result, b₁⟩, hread, hrest⟩ := Option.bind_eq_some_iff.mp (hrun : _ = _)
      obtain ⟨⟨results', b₂⟩, hops, heq⟩ := Option.map_eq_some_iff.mp hrest
      cases heq
      refine ih (stored_of_read h hread) ?_ hops
      cases result with
      | ok bytes => exact (position_of_read h hp hread).2.2
      | error e =>
        -- a read that throws changes nothing
        rcases read_cases hread with ⟨-, -, rfl⟩ | ⟨bytes, chain, nodePos, heq, -⟩
        · exact hp
        · cases heq
    | clear => exact ih (clear_stored h) (clear_cursorAt h).placed hrun

/-! ## Writing -/

/-- `w` appends `bytes`, and does not move the cursor; it has a result if the first node has room. -/
structure Writes (w : ByteArray → Option ByteArray) (bytes : List Byte) : Prop where
  has_result : ∀ b ws r, Stored b ws → CursorAt b r → min b.blockSize (ws ++ bytes).length ≤ b.firstSize →
    ∃ b', w b = some b' ∧ CursorAt b' r
  stored : ∀ b ws b', Stored b ws → w b = some b' →
    Stored b' (ws ++ bytes) ∧ b'.blockSize = b.blockSize ∧ b'.firstSize = b.firstSize

theorem writes_write (bytes : List Byte) : Writes (fun b => b.write bytes) bytes where
  has_result b ws r h hc hroom := by
    obtain ⟨b', hwrite, -, hsize, -, hcur, hpos, hlen⟩ := write_stored h bytes hroom
    exact ⟨b', hwrite, hc.of_write hsize hcur hpos hlen⟩
  stored b ws b' h hwrite := by
    obtain ⟨h', hsize, hfirst, -⟩ := stored_of_write h hwrite
    exact ⟨h', hsize, hfirst⟩

/-- One write after the other. -/
theorem Writes.bind {w w' : ByteArray → Option ByteArray} {bytes bytes' : List Byte}
    (h : Writes w bytes) (h' : Writes w' bytes') :
    Writes (fun b => (w b).bind w') (bytes ++ bytes') where
  has_result b ws r hs hc hroom := by
    rw [← List.append_assoc] at hroom
    obtain ⟨b₁, hw, hc₁⟩ := h.has_result b ws r hs hc (room_of_append hroom)
    obtain ⟨hs₁, hsize, hfirst⟩ := h.stored b ws b₁ hs hw
    obtain ⟨b₂, hw', hc₂⟩ := h'.has_result b₁ (ws ++ bytes) r hs₁ hc₁ (by rwa [hsize, hfirst])
    refine ⟨b₂, ?_, hc₂⟩
    rw [hw, Option.bind_some, hw']
  stored b ws b₂ hs hwrites := by
    obtain ⟨b₁, hw, hw'⟩ := Option.bind_eq_some_iff.mp hwrites
    obtain ⟨hs₁, hsize₁, hfirst₁⟩ := h.stored b ws b₁ hs hw
    obtain ⟨hs₂, hsize₂, hfirst₂⟩ := h'.stored b₁ (ws ++ bytes) b₂ hs₁ hw'
    rw [List.append_assoc] at hs₂
    exact ⟨hs₂, hsize₂.trans hsize₁, hfirst₂.trans hfirst₁⟩

/-- The values of a list are written in their order. -/
def writeAll {α : Type} (w : α → ByteArray → Option ByteArray) : List α → ByteArray → Option ByteArray
  | [], b => some b
  | a :: as, b => (w a b).bind (writeAll w as)

theorem Writes.all {α : Type} {w : α → ByteArray → Option ByteArray} {enc : α → List Byte} {as : List α}
    (h : ∀ a ∈ as, Writes (w a) (enc a)) : Writes (writeAll w as) (as.flatMap enc) := by
  induction as with
  | nil =>
    refine ⟨fun b ws r hs hc _ => ⟨b, rfl, hc⟩, fun b ws b' hs hw => ?_⟩
    cases hw
    exact ⟨by rwa [List.flatMap_nil, List.append_nil], rfl, rfl⟩
  | cons a as ih =>
    obtain ⟨ha, has⟩ := List.forall_mem_cons.mp h
    rw [List.flatMap_cons]
    exact ha.bind (ih has)

section

variable {α : Type} {w : α → ByteArray → Option ByteArray} {enc : α → List Byte} {as : List α}
  (heap : Nat → Nat → Byte) {first B : Nat}

/-- The values of a list are written into a fresh array. -/
theorem writeAll_new (hB : 0 < B) (h : ∀ a ∈ as, Writes (w a) (enc a))
    (hroom : min B (as.flatMap enc).length ≤ first) :
    ∃ b, writeAll w as (new heap first B) = some b ∧ Holds b (as.flatMap enc) 0 := by
  have hall := Writes.all h
  obtain ⟨b, hwrite, hc⟩ :=
    hall.has_result _ [] 0 (stored_new heap first hB) (cursorAt_new heap first hB) hroom
  obtain ⟨hb, -⟩ := hall.stored _ [] b (stored_new heap first hB) hwrite
  exact ⟨b, hwrite, .of_cursorAt hb hc (Nat.zero_le _)⟩

/-- Whatever is written into a fresh array has room in its first node. -/
theorem room_of_writeAll {heap : Nat → Nat → Byte} (hB : 0 < B) (h : ∀ a ∈ as, Writes (w a) (enc a))
    {b : ByteArray} (hwrite : writeAll w as (new heap first B) = some b) :
    min B (as.flatMap enc).length ≤ first := by
  obtain ⟨hb, hsize, hfirst⟩ := (Writes.all h).stored _ [] b (stored_new heap first hB) hwrite
  have hroom := hb.room
  rwa [hsize, hfirst] at hroom

end

/-! ## Reading -/

/-- A function that reads from a `ByteArray`. -/
abbrev Reader (α : Type) := ExceptT OutOfRange (StateT ByteArray Option) α

/-- `read`, as a `Reader`. -/
def reading (size : Nat) : Reader (List Byte) := fun b => b.read size

theorem bind_ok {α β : Type} {rd : Reader α} {f : α → Reader β} {a : α}
    (h : rd b = some (.ok a, b')) : (rd >>= f) b = f a b' := by
  show (rd b).bind _ = _
  rw [h]
  rfl

/-- A reader that has succeeded has succeeded in its first part. -/
theorem bind_eq_ok {α β : Type} {rd : Reader α} {f : α → Reader β} {c : β} {b'' : ByteArray}
    (h : (rd >>= f) b = some (.ok c, b'')) :
    ∃ a b', rd b = some (.ok a, b') ∧ f a b' = some (.ok c, b'') := by
  obtain ⟨⟨result, b'⟩, hread, hrest⟩ := Option.bind_eq_some_iff.mp (h : (rd b).bind _ = _)
  cases result with
  | error e => cases hrest
  | ok a => exact ⟨a, b', hread, hrest⟩

/-- In front of `bytes`, `rd` returns `a` and leaves the cursor behind them. -/
def Reads {α : Type} (rd : Reader α) (bytes : List Byte) (a : α) : Prop :=
  ∀ b ws r, Holds b ws r → bytes <+: ws.drop r →
    ∃ b', rd b = some (.ok a, b') ∧ Holds b' ws (r + bytes.length)

namespace Reads

variable {α β : Type} {rd : Reader α} {bytes : List Byte} {a : α}

theorem pure (a : α) : Reads (Pure.pure a : Reader α) [] a := fun b _ _ h _ => ⟨b, rfl, h⟩

theorem reading (bytes : List Byte) : Reads (reading bytes.length) bytes bytes := by
  intro b ws r h hpre
  have hlen : bytes.length ≤ ws.length - r := by
    rw [← List.length_drop]
    exact hpre.length_le
  have hle := h.le
  obtain ⟨b', hread, h'⟩ := h.read bytes.length (by omega)
  refine ⟨b', ?_, h'⟩
  have hslice : slice ws r (r + bytes.length) = bytes := by
    rw [slice, Nat.add_sub_cancel_left]
    exact (List.prefix_iff_eq_take.mp hpre).symm
  rw [ByteArray.reading, hread, hslice]

theorem bind {f : α → Reader β} {bytes' : List Byte} {c : β} (h : Reads rd bytes a)
    (h' : Reads (f a) bytes' c) : Reads (rd >>= f) (bytes ++ bytes') c := by
  intro b ws r hb hpre
  obtain ⟨b₁, hread₁, hb₁⟩ := h b ws r hb ((List.prefix_append _ _).trans hpre)
  have hpre' : bytes' <+: ws.drop (r + bytes.length) := by
    obtain ⟨rest, hrest⟩ := hpre
    refine ⟨rest, ?_⟩
    rw [← List.drop_drop, ← hrest, List.append_assoc, List.drop_left]
  obtain ⟨b₂, hread₂, hb₂⟩ := h' b₁ ws (r + bytes.length) hb₁ hpre'
  refine ⟨b₂, (bind_ok hread₁).trans hread₂, ?_⟩
  rwa [List.length_append, ← Nat.add_assoc]

theorem bind_pure (h : Reads rd bytes a) (f : α → β) :
    Reads (do let x ← rd; return f x) bytes (f a) := by
  rw [← List.append_nil bytes]
  exact h.bind (pure (f a))

/-- What is done with the result reads nothing. -/
theorem map (h : Reads rd bytes a) (f : α → β) : Reads (f <$> rd) bytes (f a) := by
  intro b ws r hb hpre
  obtain ⟨b', hread, hb'⟩ := h b ws r hb hpre
  refine ⟨b', ?_, hb'⟩
  show (rd b).bind _ = _
  rw [hread]
  rfl

end Reads

/-- The values are read one after the other; the list says what kind each of them has. -/
def readAll {κ α : Type} (rd : κ → Reader α) : List κ → Reader (List α)
  | [] => pure []
  | k :: ks => do
    let a ← rd k
    let as ← readAll rd ks
    return a :: as

theorem Reads.all {κ α β : Type} {rd : κ → Reader β} {kind : α → κ} {enc : α → List Byte} {dec : α → β}
    (as : List α) (h : ∀ a ∈ as, Reads (rd (kind a)) (enc a) (dec a)) :
    Reads (readAll rd (as.map kind)) (as.flatMap enc) (as.map dec) := by
  induction as with
  | nil => exact Reads.pure []
  | cons a as ih =>
    obtain ⟨ha, has⟩ := List.forall_mem_cons.mp h
    rw [List.flatMap_cons, ← List.append_nil (as.flatMap enc)]
    exact ha.bind ((ih has).bind (Reads.pure (dec a :: as.map dec)))

/-- Whatever is read, `P` relates it to the number of bytes that it takes. -/
def Consumes {α : Type} (rd : Reader α) (P : α → Nat → Prop) : Prop :=
  ∀ b ws a b', Stored b ws → Placed b → rd b = some (.ok a, b') →
    ∃ n, P a n ∧ b'.position = b.position + n ∧ Stored b' ws ∧ Placed b'

namespace Consumes

variable {α β : Type} {rd : Reader α} {P : α → Nat → Prop}

theorem pure (a : α) : Consumes (Pure.pure a : Reader α) fun x n => x = a ∧ n = 0 := by
  intro b ws x b' h hp hread
  cases hread
  exact ⟨0, ⟨rfl, rfl⟩, rfl, h, hp⟩

theorem reading (size : Nat) :
    Consumes (reading size) fun bytes n => bytes.length = size ∧ n = size := by
  intro b ws bytes b' h hp hread
  obtain ⟨hlen, hpos, hp'⟩ := position_of_read h hp hread
  exact ⟨size, ⟨hlen, rfl⟩, hpos, stored_of_read h hread, hp'⟩

theorem bind {f : α → Reader β} {Q : α → β → Nat → Prop} (h : Consumes rd P)
    (h' : ∀ a, Consumes (f a) (Q a)) :
    Consumes (rd >>= f) fun c n => ∃ a k l, P a k ∧ Q a c l ∧ n = k + l := by
  intro b ws c b' hb hp hread
  obtain ⟨a, b₁, hread₁, hread₂⟩ := bind_eq_ok hread
  obtain ⟨k, hk, hpos₁, hb₁, hp₁⟩ := h b ws a b₁ hb hp hread₁
  obtain ⟨l, hl, hpos₂, hb₂, hp₂⟩ := h' a b₁ ws c b' hb₁ hp₁ hread₂
  exact ⟨k + l, ⟨a, k, l, hk, hl, rfl⟩, by rw [hpos₂, hpos₁, Nat.add_assoc], hb₂, hp₂⟩

theorem mono {Q : α → Nat → Prop} (h : Consumes rd P) (himp : ∀ a n, P a n → Q a n) :
    Consumes rd Q := by
  intro b ws a b' hb hp hread
  obtain ⟨n, hn, hrest⟩ := h b ws a b' hb hp hread
  exact ⟨n, himp a n hn, hrest⟩

/-- What is done with the result takes no byte. -/
theorem map (h : Consumes rd P) (f : α → β) : Consumes (f <$> rd) fun c n => ∃ a, f a = c ∧ P a n := by
  rw [map_eq_pure_bind]
  refine (h.bind fun a => pure (f a)).mono ?_
  rintro c n ⟨a, k, l, hk, ⟨rfl, rfl⟩, rfl⟩
  exact ⟨a, rfl, hk⟩

/-- The values of a list take what each of them takes. -/
theorem all {κ : Type} {rd : κ → Reader α} (h : ∀ k, Consumes (rd k) P) (ks : List κ) :
    Consumes (readAll rd ks) fun as n => ∃ ns, List.Forall₂ P as ns ∧ n = ns.sum := by
  induction ks with
  | nil =>
    refine (pure ([] : List α)).mono ?_
    rintro as n ⟨rfl, rfl⟩
    exact ⟨[], .nil, rfl⟩
  | cons k ks ih =>
    refine ((h k).bind fun a => ih.bind fun as => pure (a :: as)).mono ?_
    rintro c n ⟨a, m, l, hm, ⟨as, m', l', ⟨ns, hns, rfl⟩, ⟨rfl, rfl⟩, rfl⟩, rfl⟩
    exact ⟨m :: ns, .cons hm hns, rfl⟩

end Consumes

end Nemo.ByteArray
