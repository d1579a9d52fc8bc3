import Nemo.Container.ByteArrayBuffers
import Nemo.Net.SocketStream

/-!
# `readFixSize` and `writeFixSize`

Both have an overload for a buffer and one for a `ByteArray`, on a `SocketStream` that is connected. The
schedule says what the `recv` or `send` of each turn returns: as many bytes as it says, if that many
were asked for, or a value that is not positive.

The overloads for a `ByteArray` rely on `seek` to move its cursors, which does nothing.

`fixSize_iff` — the overloads agree if and only if no byte is transferred, and the buffers exist and
are free
-/

namespace Nemo.Net.FixSize

open Infra Nemo.ByteArray

/-! ## The functions -/

/-- What a transfer returns that was asked for `requested` bytes. -/
def transferred (outcome : Int) (requested : Nat) : Int := min outcome (min requested intMax : Nat)

section

variable {σ : Type}

/--
The loop of all four functions, with the number of turns that it made. Gives what is returned from
within the loop, or nothing if the loop ends.
-/
def loop (transfer : σ → Nat → Int → Option (Int × σ)) (schedule : Nat → Int) (s : σ)
    (turns left : Nat) : Option (Option Int × σ) :=
  if left = 0 then some (none, s)
  else
    match transfer s left (schedule turns) with
    | none => none
    | some (len, s') =>
      if len ≤ 0 then some (some len, s')
      else loop transfer schedule s' (turns + 1) (left - len.toNat)
termination_by left
decreasing_by omega

/-- The bytes for which the loop starts. `left` is an `int64_t`. -/
def leftOf (length : Nat) : Nat := (toInt64 length).toNat

/-- The functions. In the end `length` is returned as an `int`. -/
def fixSize (transfer : σ → Nat → Int → Option (Int × σ)) (schedule : Nat → Int) (s : σ)
    (length : Nat) : Option (Int × σ) :=
  (loop transfer schedule s 0 (leftOf length)).map
    fun (result, s) => (result.getD (toInt32 length), s)

end

/-- `write` of a buffer. The state is what has been sent, whose length is the offset. -/
def write (buffer : List Byte) (sent : List Byte) (length : Nat) (outcome : Int) :
    Option (Int × List Byte) :=
  let rt := transferred outcome length
  if sent.length + rt.toNat ≤ buffer.length then
    some (rt, sent ++ slice buffer sent.length (sent.length + rt.toNat))
  else none

/-- `ByteArray::seek`. -/
def seek (b : ByteArray) (_n : Nat) : ByteArray := b

/-- The nodes have the first `k` bytes of the buffers. -/
def inNodes (b : ByteArray) : List Iovec → Nat → Bool
  | _, 0 => true
  | [], _ + 1 => true
  | iov :: iovs, k + 1 =>
    iov.offset + min iov.length (k + 1) ≤ b.nodeSize iov.block && inNodes b iovs (k + 1 - iov.length)

/-- `write` of a `ByteArray`. The state is the array, and what has been sent. -/
def writeByteArray : ByteArray × List Byte → Nat → Int → Option (Int × ByteArray × List Byte)
  | (b, sent), length, outcome => do
    let (iovs, _) ← b.getReadBuffers [] length
    let rt := transferred outcome (iovs.map Segment.length).sum
    guard (inNodes b iovs rt.toNat)
    let bytes := (iovs.flatMap (Segment.elements b.nodes)).take rt.toNat
    return (rt, if rt > 0 then seek b (b.currNodePosition + rt.toNat) else b, sent ++ bytes)

/-- The next `k` bytes that arrive, after `i` of them. -/
def arriving (incoming : Nat → Byte) (i k : Nat) : List Byte := (List.range' i k).map incoming

/-- `read` into a buffer. The state is what has been stored, whose length is the offset. -/
def read (incoming : Nat → Byte) (received : List Byte) (length : Nat) (outcome : Int) :
    Option (Int × List Byte) :=
  let rt := transferred outcome length
  some (rt, received ++ arriving incoming received.length rt.toNat)

/-- The nodes, after the bytes were received into the buffers. -/
def scatter (nodes : List (List Byte)) : List Iovec → List Byte → List (List Byte)
  | [], _ => nodes
  | iov :: iovs, bytes =>
    scatter (nodes.modify iov.block fun node => overwrite node iov.offset (bytes.take iov.length)) iovs
      (bytes.drop iov.length)

/-- `read` into a `ByteArray`. The state is the array, and what has been received. -/
def readByteArray (incoming : Nat → Byte) :
    ByteArray × List Byte → Nat → Int → Option (Int × ByteArray × List Byte)
  | (b, received), length, outcome => do
    let (b, iovs, _) ← b.getWriteBuffers [] length
    let rt := transferred outcome (iovs.map Segment.length).sum
    guard (inNodes b iovs rt.toNat)
    let bytes := arriving incoming received.length rt.toNat
    let b := { b with nodes := scatter b.nodes iovs bytes }
    return (rt, if rt > 0 then seek b (b.currNodePosition + rt.toNat) else b, received ++ bytes)

def writeFixSize (buffer : List Byte) (schedule : Nat → Int) (length : Nat) :
    Option (Int × List Byte) :=
  fixSize (write buffer) schedule [] length

def writeFixSizeByteArray (b : ByteArray) (schedule : Nat → Int) (length : Nat) :
    Option (Int × ByteArray × List Byte) :=
  fixSize writeByteArray schedule (b, []) length

def readFixSize (incoming : Nat → Byte) (schedule : Nat → Int) (length : Nat) :
    Option (Int × List Byte) :=
  fixSize (read incoming) schedule [] length

def readFixSizeByteArray (incoming : Nat → Byte) (b : ByteArray) (schedule : Nat → Int) (length : Nat) :
    Option (Int × ByteArray × List Byte) :=
  fixSize (readByteArray incoming) schedule (b, []) length

/-! ## Agreement -/

/-- What has been written and not been read. -/
def unread (b : ByteArray) : List Byte := slice b.nodes.flatten b.position b.getTotalBytes

/-- The write cursor, as a position in the chain. -/
def writeCursor (b : ByteArray) : Nat := b.lastNode * b.blockSize + b.lastNodeBytesUsed

/-- What is in front of the write cursor. -/
def written (b : ByteArray) : List Byte := b.nodes.flatten.take (writeCursor b)

/-- `writeFixSize` sends the same bytes of the array as of a buffer with its unread bytes, and the cursor
moves by as many. -/
def WriteAgrees (b : ByteArray) (schedule : Nat → Int) (length : Nat) : Prop :=
  ∃ rt b' sent, writeFixSizeByteArray b schedule length = some (rt, b', sent) ∧
    writeFixSize (unread b) schedule length = some (rt, sent) ∧
    b'.position = b.position + sent.length

/-- `readFixSize` appends to the array what it would store in a buffer. -/
def ReadAgrees (incoming : Nat → Byte) (b : ByteArray) (schedule : Nat → Int) (length : Nat) : Prop :=
  ∃ rt b' received, readFixSizeByteArray incoming b schedule length = some (rt, b', received) ∧
    readFixSize incoming schedule length = some (rt, received) ∧
    written b' = written b ++ received ∧
    b'.getReadableBytes = b.getReadableBytes + received.length

/-! ## The loop -/

theorem transferred_of_nonpos {outcome : Int} (h : outcome ≤ 0) (requested : Nat) :
    transferred outcome requested = outcome := by
  unfold transferred
  omega

theorem transferred_pos {outcome : Int} {requested : Nat} (h : 0 < outcome) (hr : 0 < requested) :
    0 < transferred outcome requested := by
  have hmax : 0 < intMax := by decide
  unfold transferred
  omega

section

variable {σ : Type} {transfer : σ → Nat → Int → Option (Int × σ)} {schedule : Nat → Int} {s s' : σ}
  {turns left : Nat} {result : Option Int}

/-- What every transfer keeps, the loop keeps. -/
theorem loop_invariant {I : σ → Prop}
    (hstep : ∀ s left outcome len s', I s → transfer s left outcome = some (len, s') → I s')
    (h : I s) (hloop : loop transfer schedule s turns left = some (result, s')) : I s' := by
  induction s, turns, left using loop.induct transfer schedule with
  | case1 s turns =>
    rw [loop, if_pos rfl] at hloop
    cases hloop
    exact h
  | case2 s turns left hleft hnone =>
    rw [loop, if_neg hleft, hnone] at hloop
    cases hloop
  | case3 s turns left hleft len s₁ hsome hlen =>
    rw [loop, if_neg hleft, hsome] at hloop
    simp only [if_pos hlen] at hloop
    cases hloop
    exact hstep s left _ len s' h hsome
  | case4 s turns left hleft len s₁ hsome hlen ih =>
    rw [loop, if_neg hleft, hsome] at hloop
    simp only [if_neg hlen] at hloop
    exact ih (hstep s left _ len s₁ h hsome) hloop

/-- A first transfer that fails ends the loop. -/
theorem fixSize_of_nonpos {length : Nat} {len : Int} (hleft : leftOf length ≠ 0)
    (htransfer : transfer s (leftOf length) (schedule 0) = some (len, s')) (hlen : len ≤ 0) :
    fixSize transfer schedule s length = some (len, s') := by
  rw [fixSize, loop, if_neg hleft, htransfer]
  simp only [if_pos hlen]
  rfl

theorem fixSize_of_none {length : Nat} (hleft : leftOf length ≠ 0)
    (htransfer : transfer s (leftOf length) (schedule 0) = none) :
    fixSize transfer schedule s length = none := by
  rw [fixSize, loop, if_neg hleft, htransfer]
  rfl

theorem fixSize_of_leftOf_eq_zero {length : Nat} (hleft : leftOf length = 0) :
    fixSize transfer schedule s length = some (toInt32 length, s) := by
  have hloop : loop transfer schedule s 0 (leftOf length) = some (none, s) := by
    rw [loop, if_pos hleft]
  rw [fixSize, hloop, Option.map_some]
  show some ((none : Option Int).getD (toInt32 length), s) = _
  rw [Option.getD_none]

theorem fixSize_invariant {I : σ → Prop} {length : Nat} {rt : Int}
    (hstep : ∀ s left outcome len s', I s → transfer s left outcome = some (len, s') → I s')
    (h : I s) (hfix : fixSize transfer schedule s length = some (rt, s')) : I s' := by
  obtain ⟨⟨result, s₁⟩, hloop, heq⟩ := Option.map_eq_some_iff.mp hfix
  cases heq
  exact loop_invariant hstep h hloop

end

/-- A transfer into a buffer that moves bytes in its first turn. -/
theorem fixSize_moves {transfer : List Byte → Nat → Int → Option (Int × List Byte)}
    (htransfer : ∀ s left outcome len s', transfer s left outcome = some (len, s') →
      len = transferred outcome left ∧ s'.length = s.length + len.toNat)
    {schedule : Nat → Int} {bytes : List Byte} {length : Nat} {rt : Int} (hleft : leftOf length ≠ 0)
    (hfirst : 0 < schedule 0) (hfix : fixSize transfer schedule [] length = some (rt, bytes)) :
    0 < bytes.length := by
  obtain ⟨⟨result, s⟩, hloop, heq⟩ := Option.map_eq_some_iff.mp hfix
  cases heq
  rw [loop, if_neg hleft] at hloop
  cases hfirstTurn : transfer [] (leftOf length) (schedule 0) with
  | none =>
    rw [hfirstTurn] at hloop
    cases hloop
  | some turn =>
    obtain ⟨len, s₁⟩ := turn
    obtain ⟨hlen, hlength⟩ := htransfer _ _ _ _ _ hfirstTurn
    have hpos := transferred_pos hfirst (Nat.pos_of_ne_zero hleft)
    rw [← hlen] at hpos
    rw [hfirstTurn] at hloop
    simp only [if_neg (Int.not_le.mpr hpos)] at hloop
    -- what has been moved stays moved
    refine loop_invariant (I := fun s => 0 < s.length) ?_ ?_ hloop
    · intro s left outcome len s' hs hs'
      obtain ⟨-, hlength⟩ := htransfer s left outcome len s' hs'
      omega
    · rw [hlength, List.length_nil]
      omega

/-! ## The transfers -/

theorem write_moves {buffer s s' : List Byte} {left : Nat} {outcome len : Int}
    (h : write buffer s left outcome = some (len, s')) :
    len = transferred outcome left ∧ s'.length = s.length + len.toNat := by
  unfold write at h
  dsimp only at h
  split at h
  · next hin =>
    cases h
    refine ⟨rfl, ?_⟩
    rw [List.length_append, length_slice hin, Nat.add_sub_cancel_left]
  · cases h

theorem read_moves {incoming : Nat → Byte} {s s' : List Byte} {left : Nat} {outcome len : Int}
    (h : read incoming s left outcome = some (len, s')) :
    len = transferred outcome left ∧ s'.length = s.length + len.toNat := by
  cases h
  refine ⟨rfl, ?_⟩
  rw [List.length_append, arriving, List.length_map, List.length_range']

/-- A `write` that moves nothing. -/
theorem write_of_nonpos {outcome : Int} (h : outcome ≤ 0) (buffer : List Byte) (left : Nat) :
    write buffer [] left outcome = some (outcome, []) := by
  have hnat : outcome.toNat = 0 := Int.toNat_of_nonpos h
  rw [write, transferred_of_nonpos h, hnat, List.length_nil, if_pos (Nat.zero_le _), slice_self]
  rfl

theorem read_of_nonpos {outcome : Int} (h : outcome ≤ 0) (incoming : Nat → Byte) (left : Nat) :
    read incoming [] left outcome = some (outcome, []) := by
  have hnat : outcome.toNat = 0 := Int.toNat_of_nonpos h
  rw [read, transferred_of_nonpos h, hnat]
  rfl

/-- No byte is touched. -/
theorem guard_inNodes_zero (b : ByteArray) (iovs : List Iovec) :
    (guard (inNodes b iovs 0) : Option Unit) = some () := by
  rw [inNodes]
  rfl

/-- Writing from an array leaves it as it is: `seek` does nothing. -/
theorem writeByteArray_array {s s' : ByteArray × List Byte} {left : Nat} {outcome len : Int}
    (h : writeByteArray s left outcome = some (len, s')) : s'.1 = s.1 := by
  obtain ⟨⟨iovs, n⟩, -, hrest⟩ := Option.bind_eq_some_iff.mp h
  obtain ⟨_, -, hrest⟩ := Option.bind_eq_some_iff.mp hrest
  cases hrest
  exact ite_self _

theorem writeCursor_ensureWritableSize (b : ByteArray) (size : Nat) :
    writeCursor (b.ensureWritableSize size) = writeCursor b := by
  unfold ensureWritableSize
  dsimp only
  split
  · rfl
  · rfl

/-- Reading into an array leaves its write cursor where it is: `seek` does nothing. -/
theorem readByteArray_writeCursor {incoming : Nat → Byte} {s s' : ByteArray × List Byte} {left : Nat}
    {outcome len : Int} (h : readByteArray incoming s left outcome = some (len, s')) :
    writeCursor s'.1 = writeCursor s.1 := by
  obtain ⟨⟨b, iovs, n⟩, hcall, hrest⟩ := Option.bind_eq_some_iff.mp h
  obtain ⟨_, -, hrest⟩ := Option.bind_eq_some_iff.mp hrest
  have hb : writeCursor b = writeCursor s.1 := by
    by_cases h0 : left = 0
    · subst h0
      cases hcall
      rfl
    · rw [getWriteBuffers_eq _ _ h0] at hcall
      obtain ⟨_, _, heq⟩ := Option.map_eq_some_iff.mp hcall
      cases heq
      exact writeCursor_ensureWritableSize s.1 left
  cases hrest
  dsimp only
  split
  · exact hb
  · exact hb

section

variable {b : ByteArray} {ws : List Byte} {left length : Nat} {outcome : Int}

/-- A first transfer from an array that moves nothing only needs its buffers. -/
theorem writeByteArray_of_nonpos (h : outcome ≤ 0) :
    writeByteArray (b, []) left outcome =
      (b.getReadBuffers [] left).map fun _ => (outcome, b, []) := by
  have hnat : outcome.toNat = 0 := Int.toNat_of_nonpos h
  cases hcall : b.getReadBuffers [] left with
  | none =>
    rw [writeByteArray, hcall]
    rfl
  | some called =>
    obtain ⟨iovs, n⟩ := called
    rw [writeByteArray, hcall]
    simp only [Option.bind_eq_bind, Option.bind_some, transferred_of_nonpos h, hnat,
      guard_inNodes_zero, List.take_zero, if_neg (Int.not_lt.mpr h)]
    rfl

/-- What is received in no byte changes no node. -/
theorem scatter_nil (nodes : List (List Byte)) (iovs : List Iovec) : scatter nodes iovs [] = nodes := by
  induction iovs with
  | nil => rfl
  | cons iov iovs ih =>
    have hsame : (fun node : List Byte => overwrite node iov.offset (([] : List Byte).take iov.length)) =
        id := by
      funext node
      rw [List.take_nil, overwrite, List.append_nil, List.length_nil, Nat.add_zero,
        List.take_append_drop]
      rfl
    rw [scatter, hsame, List.modify_id, List.drop_nil, ih]

theorem readByteArray_of_nonpos (incoming : Nat → Byte) (h : outcome ≤ 0) (hleft : left ≠ 0) :
    readByteArray incoming (b, []) left outcome =
      ((b.ensureWritableSize left).buffersFromCursor left).map
        fun _ => (outcome, b.ensureWritableSize left, []) := by
  have hnat : outcome.toNat = 0 := Int.toNat_of_nonpos h
  rw [readByteArray, getWriteBuffers_eq _ _ hleft]
  cases hiovs : (b.ensureWritableSize left).buffersFromCursor left with
  | none => rfl
  | some iovs =>
    have hbytes : arriving incoming ([] : List Byte).length 0 = [] := rfl
    simp only [Option.bind_eq_bind, Option.map_some, Option.bind_some, transferred_of_nonpos h, hnat,
      guard_inNodes_zero, hbytes, scatter_nil, if_neg (Int.not_lt.mpr h)]
    rfl

theorem getReadBuffers_isSome_iff (hp : Placed b) (hpos : b.position ≤ b.nodes.length * b.blockSize) :
    (∃ called, b.getReadBuffers [] left = some called) ↔
      b.position + min left b.getReadableBytes ≤ b.nodes.length * b.blockSize := by
  unfold getReadBuffers
  dsimp only
  split
  · next h0 => exact iff_of_true ⟨_, rfl⟩ (by rwa [h0])
  · next h0 =>
    by_cases hin : b.position + min left b.getReadableBytes ≤ b.nodes.length * b.blockSize
    · obtain ⟨iovs, hiovs⟩ := buffersFromCursor_within hp (Nat.pos_of_ne_zero h0) hin
      rw [hiovs]
      exact iff_of_true ⟨_, rfl⟩ hin
    · rw [buffersFromCursor_beyond hp (Nat.pos_of_ne_zero h0) (Nat.not_le.mp hin)]
      exact iff_of_false (fun ⟨_, hsome⟩ => nomatch hsome) hin

/-! ## When they agree -/

theorem writeAgrees_iff (hp : Placed b) (hpos : b.position ≤ b.nodes.length * b.blockSize)
    (schedule : Nat → Int) :
    WriteAgrees b schedule length ↔ leftOf length = 0 ∨
      schedule 0 ≤ 0 ∧
        b.position + min (leftOf length) b.getReadableBytes ≤ b.nodes.length * b.blockSize := by
  by_cases hleft : leftOf length = 0
  · refine iff_of_true ⟨_, b, [], fixSize_of_leftOf_eq_zero hleft, fixSize_of_leftOf_eq_zero hleft, ?_⟩
      (.inl hleft)
    rfl
  rw [or_iff_right hleft]
  by_cases hfirst : schedule 0 ≤ 0
  · rw [and_iff_right hfirst, ← getReadBuffers_isSome_iff hp hpos]
    have htransfer : writeByteArray (b, []) (leftOf length) (schedule 0) = _ :=
      writeByteArray_of_nonpos hfirst
    cases hcall : b.getReadBuffers [] (leftOf length) with
    | none =>
      rw [hcall] at htransfer
      refine iff_of_false ?_ (fun ⟨_, hsome⟩ => nomatch hsome)
      rintro ⟨rt, b', sent, hfix, -⟩
      rw [writeFixSizeByteArray, fixSize_of_none hleft htransfer] at hfix
      cases hfix
    | some called =>
      rw [hcall] at htransfer
      refine iff_of_true ⟨schedule 0, b, [], fixSize_of_nonpos hleft htransfer hfirst, ?_, rfl⟩
        ⟨called, rfl⟩
      exact fixSize_of_nonpos hleft (write_of_nonpos hfirst _ _) hfirst
  · -- the cursor does not move, but a byte is sent
    refine iff_of_false ?_ (fun h => hfirst h.1)
    rintro ⟨rt, b', sent, harray, hbuffer, hconsumed⟩
    have hsame : b' = b := fixSize_invariant (I := fun s => s.1 = b)
      (fun s left outcome len s' hs hstep => (writeByteArray_array hstep).trans hs) rfl harray
    have hsent := fixSize_moves (fun _ _ _ _ _ => write_moves) hleft (Int.not_le.mp hfirst) hbuffer
    rw [hsame] at hconsumed
    omega

theorem readAgrees_iff (h : Stored b ws) (hp : Placed b) (incoming : Nat → Byte) (schedule : Nat → Int) :
    ReadAgrees incoming b schedule length ↔ leftOf length = 0 ∨
      schedule 0 ≤ 0 ∧ leftOf length ≤ b.blockSize - b.lastNodeBytesUsed ∧
        b.position + leftOf length ≤ b.nodes.length * b.blockSize := by
  by_cases hleft : leftOf length = 0
  · refine iff_of_true ⟨_, b, [], fixSize_of_leftOf_eq_zero hleft, fixSize_of_leftOf_eq_zero hleft, ?_,
      rfl⟩ (.inl hleft)
    rw [List.append_nil]
  rw [or_iff_right hleft]
  by_cases hfirst : schedule 0 ≤ 0
  · rw [and_iff_right hfirst]
    have htransfer := readByteArray_of_nonpos incoming (b := b) hfirst hleft
    by_cases hroom : leftOf length ≤ b.blockSize - b.lastNodeBytesUsed
    · rw [and_iff_right hroom]
      rw [ensureWritableSize_of_le hroom] at htransfer
      by_cases hin : b.position + leftOf length ≤ b.nodes.length * b.blockSize
      · obtain ⟨iovs, hiovs⟩ := buffersFromCursor_within hp (Nat.pos_of_ne_zero hleft) hin
        rw [hiovs] at htransfer
        refine iff_of_true ⟨schedule 0, b, [], fixSize_of_nonpos hleft htransfer hfirst, ?_, ?_, rfl⟩ hin
        · exact fixSize_of_nonpos hleft (read_of_nonpos hfirst _ _) hfirst
        · rw [List.append_nil]
      · rw [buffersFromCursor_beyond hp (Nat.pos_of_ne_zero hleft) (Nat.not_le.mp hin)] at htransfer
        refine iff_of_false ?_ hin
        rintro ⟨rt, b', received, hfix, -⟩
        rw [readFixSizeByteArray, fixSize_of_none hleft htransfer] at hfix
        cases hfix
    · -- new nodes count as readable, but nothing has been received
      refine iff_of_false ?_ (fun h => hroom h.1)
      rintro ⟨rt, b', received, hfix, hbuffer, -, hreadable⟩
      have hgrow := getReadableBytes_ensureWritableSize h (Nat.not_le.mp hroom)
      cases hiovs : (b.ensureWritableSize (leftOf length)).buffersFromCursor (leftOf length) with
      | none =>
        rw [hiovs] at htransfer
        rw [readFixSizeByteArray, fixSize_of_none hleft htransfer] at hfix
        cases hfix
      | some iovs =>
        rw [hiovs] at htransfer
        rw [readFixSizeByteArray, fixSize_of_nonpos hleft htransfer hfirst] at hfix
        obtain ⟨-, heq⟩ := Prod.mk.inj (Option.some.inj hfix)
        obtain ⟨rfl, rfl⟩ := Prod.mk.inj heq
        rw [List.length_nil, Nat.add_zero] at hreadable
        omega
  · -- the write cursor does not move, but a byte is received
    refine iff_of_false ?_ (fun h => hfirst h.1)
    rintro ⟨rt, b', received, harray, hbuffer, hwritten, -⟩
    have hsame : writeCursor b' = writeCursor b :=
      fixSize_invariant (I := fun s => writeCursor s.1 = writeCursor b)
        (fun s left outcome len s' hs hstep => (readByteArray_writeCursor hstep).trans hs) rfl harray
    have hreceived := fixSize_moves (fun _ _ _ _ _ => read_moves) hleft (Int.not_le.mp hfirst) hbuffer
    have hlen : (written b').length ≤ (written b).length := by
      have hstored : (written b).length = writeCursor b := by
        rw [written, List.length_take, h.blocks.length_flatten, writeCursor, ← h.length_eq]
        exact Nat.min_eq_left h.stored_le
      rw [hstored, ← hsame]
      exact List.length_take_le _ _
    rw [hwritten, List.length_append] at hlen
    omega

theorem position_le (hp : Placed b) : b.position ≤ b.nodes.length * b.blockSize := by
  rcases hp with ⟨hlt, i, hi, hcur, hpos⟩ | hnull
  · have hle : (i + 1) * b.blockSize ≤ b.nodes.length * b.blockSize := Nat.mul_le_mul_right _ hi
    rw [Nat.succ_mul] at hle
    omega
  · rw [position, hnull]

end

/--
**The overloads for an array agree with those for a buffer if and only if the first transfer moves no
byte**, or there is none, and the array has its buffers. The buffers to read into are then free only if
they fit into the last node.
-/
theorem fixSize_iff (heap : Nat → Nat → Byte) (first : Nat) {B : Nat} (hB : 0 < B) {ops : List (Fifo.Op Byte)}
    {results : List (Except OutOfRange (List Byte))} {b : ByteArray}
    (hrun : (new heap first B).run ops = some (results, b)) (incoming : Nat → Byte) (sends recvs : Nat → Int)
    (length : Nat) :
    (WriteAgrees b sends length ↔ leftOf length = 0 ∨
      sends 0 ≤ 0 ∧
        b.position + min (leftOf length) b.getReadableBytes ≤ b.nodes.length * b.blockSize) ∧
    (ReadAgrees incoming b recvs length ↔ leftOf length = 0 ∨
      recvs 0 ≤ 0 ∧ leftOf length ≤ b.blockSize - b.lastNodeBytesUsed ∧
        b.position + leftOf length ≤ b.nodes.length * b.blockSize) := by
  obtain ⟨⟨ws, h⟩, hp⟩ := run_placed (stored_new heap first hB) (cursorAt_new heap first hB).placed hrun
  exact ⟨writeAgrees_iff hp (position_le hp) sends, readAgrees_iff h hp incoming recvs⟩

/-- Two bytes are unread, and each transfer moves one. -/
theorem fixSize_iff_two :
    ∃ b, (new (fun _ _ => 0) 8 8).run [.write [1, 2]] = some ([], b) ∧
      (WriteAgrees b (fun _ => 1) 2 ↔ leftOf 2 = 0 ∨
        (1 : Int) ≤ 0 ∧ b.position + min (leftOf 2) b.getReadableBytes ≤ b.nodes.length * b.blockSize) ∧
      (ReadAgrees (fun _ => 3) b (fun _ => 1) 2 ↔ leftOf 2 = 0 ∨
        (1 : Int) ≤ 0 ∧ leftOf 2 ≤ b.blockSize - b.lastNodeBytesUsed ∧
          b.position + leftOf 2 ≤ b.nodes.length * b.blockSize) := by
  obtain ⟨b, hb⟩ : ∃ b, (new (fun _ _ => 0) 8 8).run [.write [1, 2]] = some ([], b) := ⟨_, rfl⟩
  exact ⟨b, hb, fixSize_iff (fun _ _ => 0) 8 (by decide) hb (fun _ => 3) (fun _ => 1) (fun _ => 1) 2⟩

/-- Of two bytes the first one is sent twice. -/
theorem not_fixSize :
    ¬ ∀ (ops : List (Fifo.Op Byte)) (results : List (Except OutOfRange (List Byte))) (b : ByteArray),
      (new (fun _ _ => 0) 8 8).run ops = some (results, b) →
      ∀ (incoming : Nat → Byte) (schedule : Nat → Int) (length : Nat),
        WriteAgrees b schedule length ∧ ReadAgrees incoming b schedule length := by
  intro h
  obtain ⟨b, hb⟩ : ∃ b, (new (fun _ _ => 0) 8 8).run [.write [1, 2]] = some ([], b) := ⟨_, rfl⟩
  obtain ⟨-, hp⟩ :=
    run_placed (stored_new (fun _ _ => 0) 8 (B := 8) (by decide)) (cursorAt_new _ 8 (by decide)).placed hb
  have hagrees := (h _ _ b hb (fun _ => 0) (fun _ => 1) 2).1
  rw [writeAgrees_iff hp (position_le hp)] at hagrees
  rcases hagrees with h0 | ⟨hfirst, -⟩
  · exact absurd h0 (by decide)
  · exact absurd hfirst (by decide)

end Nemo.Net.FixSize
