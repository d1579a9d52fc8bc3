import Nemo.Container.ByteArrayReader
import Nemo.Infra.Lts
import Nemo.Infra.Segments

/-!
# The buffers of a `ByteArray`

`getReadBuffers` and `getWriteBuffers` name parts of the nodes, for a call that sends from them or
receives into them. Both walk along the chain from the read cursor on.

* `buffersHoldRead_iff` — the buffers to read from hold what `read` gives, if and only if the first node
  has room for what was written
* `freeSpace_iff` — the buffers to write to are free if everything has been read and they fit into
  the last node and its memory; else they are not, for they start at the read cursor, and a new node
  counts as readable
-/

namespace Nemo.ByteArray

open Infra

/-! ## The functions -/

/-- An `iovec`, whose base is in the data of a node. -/
abbrev Iovec := Segment

/-- The loop of both functions, with the chain from `curr` on. -/
def buffersLoop (blockSize : Nat) : List (List Byte) → Nat → Nat → Nat → Nat → Option (List Iovec)
  | _, _, _, _, 0 => some []
  | [], _, _, _, _ + 1 => none
  | _ :: chain, curr, nodePos, nodeBytesLeft, len + 1 =>
    let len := len + 1
    if nodeBytesLeft ≥ len then some [{ block := curr, offset := nodePos, length := len }]
    else do
      let iovs ← buffersLoop blockSize chain (curr + 1) 0 blockSize (len - nodeBytesLeft)
      return { block := curr, offset := nodePos, length := nodeBytesLeft } :: iovs

/-- The buffers from the cursor on. -/
def buffersFromCursor (b : ByteArray) (len : Nat) : Option (List Iovec) :=
  buffersLoop b.blockSize b.chain (b.currentNode.getD 0) b.currNodePosition
    (b.blockSize - b.currNodePosition) len

/-- Gives `buffers` and the value that is returned. The function is `const`. -/
def getReadBuffers (b : ByteArray) (buffers : List Iovec) (len : Nat) : Option (List Iovec × Nat) :=
  let len := min len b.getReadableBytes
  if len = 0 then some (buffers, 0)
  else (b.buffersFromCursor len).map fun iovs => (buffers ++ iovs, len)

def getWriteBuffers (b : ByteArray) (buffers : List Iovec) (len : Nat) :
    Option (ByteArray × List Iovec × Nat) :=
  if len = 0 then some (b, buffers, 0)
  else
    let b := b.ensureWritableSize len
    (b.buffersFromCursor len).map fun iovs => (b, buffers ++ iovs, len)

/-! ## The loop -/

theorem buffersLoop_eq {B : Nat} {chain : List (List Byte)} (curr len : Nat) {nodePos : Nat}
    (hp : nodePos < B) (hlen : nodePos + len ≤ chain.length * B) :
    ∃ iovs, buffersLoop B chain curr nodePos (B - nodePos) len = some iovs ∧
      Tiles B (curr * B + nodePos) iovs (curr * B + nodePos + len) := by
  induction chain generalizing curr nodePos len with
  | nil =>
    rw [List.length_nil, Nat.zero_mul] at hlen
    obtain rfl : len = 0 := by omega
    exact ⟨[], by rw [buffersLoop], rfl⟩
  | cons node chain ih =>
    cases len with
    | zero => exact ⟨[], by rw [buffersLoop], rfl⟩
    | succ len =>
      rw [List.length_cons, Nat.succ_mul] at hlen
      rw [buffersLoop]
      by_cases hfit : B - nodePos ≥ len + 1
      · refine ⟨[⟨curr, nodePos, len + 1⟩], if_pos hfit, rfl, Nat.succ_pos len, ?_, rfl⟩
        show nodePos + (len + 1) ≤ B
        omega
      · -- the rest of this node, and the next ones
        have hB : 0 < B := Nat.lt_of_le_of_lt (Nat.zero_le nodePos) hp
        obtain ⟨iovs, hloop, htiles⟩ := ih (curr + 1) (len + 1 - (B - nodePos)) hB (by omega)
        have hnext : (curr + 1) * B + 0 = curr * B + nodePos + (B - nodePos) := by
          rw [Nat.succ_mul]
          omega
        have hend : curr * B + nodePos + (B - nodePos) + (len + 1 - (B - nodePos)) =
            curr * B + nodePos + (len + 1) := by omega
        rw [hnext, hend] at htiles
        rw [Nat.sub_zero] at hloop
        refine ⟨⟨curr, nodePos, B - nodePos⟩ :: iovs, ?_, rfl, ?_, ?_, htiles⟩
        · rw [if_neg hfit, hloop]
          rfl
        · exact Nat.sub_pos_of_lt hp
        · exact Nat.le_of_eq (Nat.add_sub_of_le (Nat.le_of_lt hp))

theorem buffersLoop_eq_none {B : Nat} {chain : List (List Byte)} (curr len : Nat) {nodePos : Nat}
    (hp : nodePos ≤ B) (h0 : 0 < len) (hlen : chain.length * B < nodePos + len) :
    buffersLoop B chain curr nodePos (B - nodePos) len = none := by
  obtain ⟨len, rfl⟩ := Nat.exists_eq_succ_of_ne_zero (Nat.pos_iff_ne_zero.mp h0)
  induction chain generalizing curr nodePos len with
  | nil => rfl
  | cons node chain ih =>
    rw [List.length_cons, Nat.succ_mul] at hlen
    obtain ⟨rest, hrest⟩ : ∃ rest, len + 1 - (B - nodePos) = rest + 1 :=
      ⟨len - (B - nodePos), by omega⟩
    have hstep := ih (curr + 1) (Nat.zero_le B) rest (Nat.succ_pos rest) (by omega)
    rw [Nat.sub_zero] at hstep
    rw [buffersLoop, if_neg (by omega), hrest, hstep]
    rfl

section

variable {b : ByteArray} {r len : Nat}

/-- The buffers from the cursor on are the next `len` bytes of the chain. -/
theorem buffersFromCursor_eq (hc : CursorAt b r)
    (hlen : r + len ≤ b.nodes.length * b.blockSize) :
    ∃ iovs, b.buffersFromCursor len = some iovs ∧ Tiles b.blockSize r iovs (r + len) := by
  obtain ⟨hp, i, hi, hcur, rfl⟩ := hc
  have hchain : b.currNodePosition + len ≤ (b.nodes.drop i).length * b.blockSize := by
    rw [List.length_drop, Nat.sub_mul]
    omega
  obtain ⟨iovs, hloop, htiles⟩ := buffersLoop_eq i len hp hchain
  refine ⟨iovs, ?_, htiles⟩
  rw [buffersFromCursor, chain, hcur]
  exact hloop

/-- Behind a null pointer there are no buffers. -/
theorem buffersFromCursor_null (hnull : b.currentNode = none) (hlen : 0 < len) :
    b.buffersFromCursor len = none := by
  obtain ⟨len, rfl⟩ := Nat.exists_eq_succ_of_ne_zero (Nat.pos_iff_ne_zero.mp hlen)
  rw [buffersFromCursor, chain, hnull]
  rfl

/-- There are buffers as long as the chain does not end. -/
theorem buffersFromCursor_within (hp : Placed b) (hlen : 0 < len)
    (hn : b.position + len ≤ b.nodes.length * b.blockSize) :
    ∃ iovs, b.buffersFromCursor len = some iovs := by
  rcases hp with hc | hnull
  · obtain ⟨iovs, hiovs, -⟩ := buffersFromCursor_eq hc hn
    exact ⟨iovs, hiovs⟩
  · rw [position, hnull] at hn
    dsimp only at hn
    omega

/-- Buffers that go behind the chain follow a null pointer. -/
theorem buffersFromCursor_beyond (hp : Placed b) (hlen : 0 < len)
    (hn : b.nodes.length * b.blockSize < b.position + len) : b.buffersFromCursor len = none := by
  rcases hp with hc | hnull
  · obtain ⟨hp, i, hi, hcur, hpos⟩ := hc
    have hile : i * b.blockSize ≤ b.nodes.length * b.blockSize :=
      Nat.mul_le_mul_right _ (Nat.le_of_lt hi)
    rw [buffersFromCursor, chain, hcur]
    refine buffersLoop_eq_none i len (Nat.le_of_lt hp) hlen ?_
    rw [List.length_drop, Nat.sub_mul]
    omega
  · exact buffersFromCursor_null hnull hlen

end

/-! ## Reading from the buffers -/

/-- Writes are a write of all their bytes. -/
theorem run_writes (bufs : List (List Byte)) (b : ByteArray) (ops : List (Fifo.Op Byte)) :
    b.run (bufs.map .write ++ ops) = (writeAll (fun buf b => b.write buf) bufs b).bind fun b => b.run ops := by
  induction bufs generalizing b with
  | nil => rfl
  | cons buf bufs ih =>
    rw [List.map_cons, List.cons_append, run, writeAll, Option.bind_assoc]
    exact congrArg _ (funext fun b => ih b)

/-- Reads of bytes that have not been read. -/
theorem run_reads (sizes : List Nat) {b : ByteArray} {ws : List Byte} {r : Nat} (h : Holds b ws r)
    (hsizes : r + sizes.sum ≤ ws.length) :
    ∃ results b', b.run (sizes.map .read) = some (results, b') ∧ Holds b' ws (r + sizes.sum) := by
  induction sizes generalizing b r with
  | nil => exact ⟨[], b, rfl, h⟩
  | cons size sizes ih =>
    rw [List.sum_cons, ← Nat.add_assoc] at hsizes
    obtain ⟨b₁, hread, h₁⟩ := h.read size (by omega)
    obtain ⟨results, b', hrun, h'⟩ := ih h₁ hsizes
    refine ⟨_, b', run_read hread hrun, ?_⟩
    rwa [List.sum_cons, ← Nat.add_assoc]

/--
Writes and then reads of what was written, all of which have a result, leave an array whose buffers are
not empty and hold what a read of `len` bytes gives.
-/
def BuffersHoldRead (heap : Nat → Nat → Byte) (first B : Nat) (bufs : List (List Byte)) (sizes : List Nat)
    (buffers : List Iovec) (len : Nat) : Prop :=
  ∃ results b, (new heap first B).run (bufs.map .write ++ sizes.map .read) = some (results, b) ∧
    ∃ iovs, b.getReadBuffers buffers len = some (buffers ++ iovs, len) ∧
      (∀ iov ∈ iovs, 0 < iov.length) ∧
      ∃ b', b.read len = some (.ok (iovs.flatMap (Segment.elements b.nodes)), b')

section

variable (heap : Nat → Nat → Byte) {first B : Nat} {bufs : List (List Byte)} {sizes : List Nat}

/-- What has been written had room in the first node. -/
theorem room_of_run {heap : Nat → Nat → Byte} (hB : 0 < B)
    {results : List (Except OutOfRange (List Byte))} {b : ByteArray}
    (hrun : (new heap first B).run (bufs.map .write ++ sizes.map .read) = some (results, b)) :
    min B bufs.flatten.length ≤ first := by
  rw [run_writes] at hrun
  obtain ⟨b₁, hwrite, -⟩ := Option.bind_eq_some_iff.mp hrun
  have hroom : min B (bufs.flatMap fun buf => buf).length ≤ first :=
    room_of_writeAll hB (fun buf _ => writes_write buf) hwrite
  rwa [List.flatMap_id'] at hroom

/-- Then all calls have a result, and the array holds what was written. -/
theorem run_writes_reads (hB : 0 < B) (hsizes : sizes.sum ≤ bufs.flatten.length)
    (hroom : min B bufs.flatten.length ≤ first) :
    ∃ results b, (new heap first B).run (bufs.map .write ++ sizes.map .read) = some (results, b) ∧
      Holds b bufs.flatten sizes.sum := by
  rw [← List.flatMap_id'] at hroom hsizes
  obtain ⟨b₁, hwrites, h₁⟩ := writeAll_new heap hB (fun buf (_ : buf ∈ bufs) => writes_write buf) hroom
  obtain ⟨results, b, hreads, h⟩ := run_reads sizes h₁ (by omega)
  rw [List.flatMap_id', Nat.zero_add] at h
  refine ⟨results, b, ?_, h⟩
  rw [run_writes, hwrites]
  exact hreads

end

/-- **The buffers hold what a read gives**, if and only if the first node has room for what is written, or for
a block of it. -/
theorem buffersHoldRead_iff (heap : Nat → Nat → Byte) (first : Nat) {B : Nat} (hB : 0 < B)
    (bufs : List (List Byte)) (sizes : List Nat) (hsizes : sizes.sum ≤ bufs.flatten.length)
    (buffers : List Iovec) {len : Nat} (hpos : 0 < len)
    (hlen : len ≤ bufs.flatten.length - sizes.sum) :
    BuffersHoldRead heap first B bufs sizes buffers len ↔ min B bufs.flatten.length ≤ first := by
  refine ⟨fun ⟨results, b, hrun, _⟩ => room_of_run hB hrun, fun hroom => ?_⟩
  obtain ⟨results, b, hrun, h⟩ := run_writes_reads heap hB hsizes hroom
  -- a byte is left, so the cursor is in the chain
  have hc : CursorAt b sizes.sum := h.cursor.resolve_right fun hnull => by omega
  have hchain := h.stored.stored_le
  have hin : sizes.sum + len ≤ b.nodes.length * b.blockSize := by omega
  obtain ⟨iovs, hiovs, htiles⟩ := buffersFromCursor_eq hc hin
  obtain ⟨b', hread, -⟩ := h.read len (by omega)
  refine ⟨results, b, hrun, iovs, ?_, fun iov hiov => (htiles.of_mem hiov).1, b', ?_⟩
  · have hmin : min len b.getReadableBytes = len := by
      rw [h.stored.getReadableBytes_eq]
      omega
    rw [getReadBuffers, hmin, if_neg (by omega), hiovs]
    rfl
  · rw [htiles.flatMap_elements h.stored.blocks (by omega), h.stored.slice_nodes (by omega)]
    exact hread

/-- Of five bytes in blocks of three, one has been read. -/
theorem buffersHoldRead_threeBytes :
    BuffersHoldRead (fun _ _ => 0) 3 3 [[1, 2], [3, 4, 5]] [1] [] 4 ↔
      min 3 ([[1, 2], [3, 4, 5]] : List (List Byte)).flatten.length ≤ 3 :=
  buffersHoldRead_iff (fun _ _ => 0) 3 (by decide) [[1, 2], [3, 4, 5]] [1] (by decide) [] (by decide)
    (by decide)

/-- The first node has no room for a byte. -/
theorem not_buffersHoldRead : ¬ ∀ (heap : Nat → Nat → Byte) (first B : Nat), 0 < B →
    ∀ (bufs : List (List Byte)) (sizes : List Nat), sizes.sum ≤ bufs.flatten.length →
      ∀ (buffers : List Iovec) (len : Nat), 0 < len → len ≤ bufs.flatten.length - sizes.sum →
        BuffersHoldRead heap first B bufs sizes buffers len := by
  intro h
  obtain ⟨results, b, hrun, -⟩ :=
    h (fun _ _ => 0) 0 8 (by decide) [[7]] [] (by decide) [] 1 (by decide) (by decide)
  cases hrun

/-! ## Writing to the buffers -/

section

variable {b : ByteArray} {ws : List Byte} {len : Nat}

/-- The last node is full if the chain is. -/
theorem used_of_full (h : Stored b ws) (hfull : ws.length = b.nodes.length * b.blockSize) :
    b.lastNodeBytesUsed = b.blockSize := by
  rw [h.length_eq, h.length_nodes, Nat.succ_mul] at hfull
  omega

/-- Buffers that fit leave the array as it is. -/
theorem ensureWritableSize_of_le (h : len ≤ b.blockSize - b.lastNodeBytesUsed) :
    b.ensureWritableSize len = b := if_pos h

theorem getWriteBuffers_eq (b : ByteArray) (buffers : List Iovec) (hlen : len ≠ 0) :
    b.getWriteBuffers buffers len = ((b.ensureWritableSize len).buffersFromCursor len).map
      fun iovs => (b.ensureWritableSize len, buffers ++ iovs, len) := if_neg hlen

/-- New nodes count as readable. -/
theorem getReadableBytes_ensureWritableSize (h : Stored b ws)
    (hlen : b.blockSize - b.lastNodeBytesUsed < len) :
    b.getReadableBytes < (b.ensureWritableSize len).getReadableBytes := by
  obtain ⟨fresh, -, hens, -, hroom⟩ := ensureWritableSize_eq h (Nat.lt_of_le_of_lt (Nat.zero_le _) hlen)
  have hB := h.blockSize_pos
  have hused := h.used_le
  have hlast := h.last
  have hfresh : 0 < fresh.length := by
    by_contra h0
    obtain h0 : fresh.length = 0 := by omega
    rw [h0, Nat.zero_add, Nat.one_mul] at hroom
    omega
  rw [hens]
  show (b.nodeCount - b.currNodeIndex - 1) * b.blockSize + b.lastNodeBytesUsed <
    (b.nodeCount + fresh.length - b.currNodeIndex - 1) * b.blockSize + b.lastNodeBytesUsed
  rw [h.index]
  refine Nat.add_lt_add_right (Nat.mul_lt_mul_of_pos_right ?_ hB) _
  omega

end

/-- A `ByteArray` and the number of bytes that have been written into it and not been read. -/
structure Session where
  array : ByteArray
  unread : Nat

inductive Call
  | write (buf : List Byte)
  | read (size : Nat)
  | getWriteBuffers (len : Nat)

namespace Session

/-- What a call does. Only bytes that have not been read are read. -/
def step (s : Session) : Call → Option Session
  | .write buf => (s.array.write buf).map fun b => ⟨b, s.unread + buf.length⟩
  | .read size =>
    if size ≤ s.unread then (s.array.read size).map fun (_, b) => ⟨b, s.unread - size⟩ else none
  | .getWriteBuffers len => (s.array.getWriteBuffers [] len).map fun (b, _) => ⟨b, s.unread⟩

/-- The calls on a fresh array. -/
def calls (heap : Nat → Nat → Byte) (first B : Nat) : Lts Session Call where
  init := ⟨new heap first B, 0⟩
  step := step

/-- Everything has been read, and the last node has room for `len` bytes: in its block, and in its memory. -/
def Fits (b : ByteArray) (len : Nat) : Prop :=
  b.position = b.getTotalBytes ∧ len ≤ b.blockSize - b.lastNodeBytesUsed ∧
    b.lastNodeBytesUsed + len ≤ b.nodeSize b.lastNode

instance (b : ByteArray) (len : Nat) : Decidable (Fits b len) :=
  inferInstanceAs (Decidable (_ ∧ _ ∧ _))

/-- A call of `getWriteBuffers` asks for no byte, or fits. -/
def Fitting (s : Session) : Call → Prop
  | .getWriteBuffers len => len = 0 ∨ Fits s.array len
  | _ => True

instance (s : Session) : (c : Call) → Decidable (Fitting s c)
  | .write _ => instDecidableTrue
  | .read _ => instDecidableTrue
  | .getWriteBuffers len => inferInstanceAs (Decidable (len = 0 ∨ Fits s.array len))

/--
`getWriteBuffers` gives `len` bytes, in buffers that do not overlap and lie in nodes that are allocated,
behind what is written and so apart from what is unread. What can be read is the same as without it.
-/
def FreeSpace (s : Session) (len : Nat) : Prop :=
  ∀ buffers, ∃ b iovs, s.array.getWriteBuffers buffers len = some (b, buffers ++ iovs, len) ∧
    (iovs.map Segment.length).sum = len ∧
    iovs.Pairwise (Segment.Apart b.blockSize) ∧
    (∀ iov ∈ iovs, iov.block < b.nodes.length ∧ iov.offset + iov.length ≤ b.blockSize ∧
      iov.offset + iov.length ≤ b.nodeSize iov.block ∧
      s.array.getTotalBytes ≤ iov.start b.blockSize ∧
      ∀ p, p < s.array.getTotalBytes → s.array.getTotalBytes - s.unread ≤ p →
        p < iov.start b.blockSize ∨ iov.start b.blockSize + iov.length ≤ p) ∧
    b.getReadableBytes = s.array.getReadableBytes ∧
    ∀ sizes : List Nat, sizes.sum ≤ s.unread →
      (b.run (sizes.map .read)).map Prod.fst = (s.array.run (sizes.map .read)).map Prod.fst

/-! ## What the sessions keep -/

/-- The cursor is in the chain, or null because a full last node was drained. -/
structure Inv (s : Session) (ws : List Byte) (r : Nat) : Prop where
  stored : Stored s.array ws
  le : r ≤ ws.length
  unread : s.unread = ws.length - r
  cursor : CursorAt s.array r ∨
    s.array.currentNode = none ∧ (r = ws.length → s.array.lastNodeBytesUsed = s.array.blockSize)

variable {s s' : Session} {ws : List Byte} {r len : Nat}

theorem inv_init (heap : Nat → Nat → Byte) (first : Nat) {B : Nat} (hB : 0 < B) :
    Inv ⟨new heap first B, 0⟩ [] 0 where
  stored := stored_new heap first hB
  le := Nat.le_refl 0
  unread := rfl
  cursor := .inl (cursorAt_new heap first hB)

theorem Inv.write (h : Inv s ws r) (buf : List Byte) (hs : s.step (.write buf) = some s') :
    Inv s' (ws ++ buf) r := by
  obtain ⟨b', hwrite, rfl⟩ := Option.map_eq_some_iff.mp (hs : _ = _)
  obtain ⟨h', hsize, -, hcur, hpos, hlen⟩ := stored_of_write h.stored hwrite
  have hle := h.le
  have hunread := h.unread
  refine ⟨h', ?_, ?_, ?_⟩
  · rw [List.length_append]
    omega
  · show s.unread + buf.length = _
    rw [List.length_append]
    omega
  · rcases h.cursor with hc | ⟨hnull, hfull⟩
    · exact .inl (hc.of_write hsize hcur hpos hlen)
    · refine .inr ⟨hcur.trans hnull, fun hr => ?_⟩
      -- then nothing was written
      rw [List.length_append] at hr
      obtain rfl : buf = [] := List.eq_nil_of_length_eq_zero (by omega)
      cases hwrite
      exact hfull (by rwa [List.length_nil, Nat.add_zero] at hr)

theorem Inv.read (h : Inv s ws r) (size : Nat) (hs : s.step (.read size) = some s') :
    Inv s' ws (r + size) := by
  have hle := h.le
  have hunread := h.unread
  rw [step] at hs
  split at hs
  · next hin =>
    rcases h.cursor with hc | ⟨hnull, hfull⟩
    · obtain ⟨b', hread, h', hsize, -, hend, hlive⟩ := read_eq h.stored hc size (by omega)
      rw [hread] at hs
      cases hs
      refine ⟨h', by omega, ?_, ?_⟩
      · show s.unread - size = _
        omega
      · by_cases hdone : r + size = s.array.nodes.length * s.array.blockSize
        · refine .inr ⟨hend hdone, fun hr => used_of_full h' ?_⟩
          have hdvd := (h.stored.end_iff (by omega)).mp hdone
          rw [← hsize] at hdvd
          rw [← hr]
          exact (h'.end_iff (by omega)).mpr hdvd
        · exact .inl (hlive hdone)
    · rw [read_null h.stored hnull size (by omega)] at hs
      split at hs
      · next h0 =>
        cases hs
        subst h0
        exact ⟨h.stored, by omega, by rw [Nat.add_zero]; exact h.unread, .inr ⟨hnull, hfull⟩⟩
      · cases hs
  · cases hs

theorem Inv.getWriteBuffers (h : Inv s ws r) (hfits : Fitting s (.getWriteBuffers len))
    (hs : s.step (.getWriteBuffers len) = some s') : Inv s' ws r := by
  have hsame : s' = s := by
    obtain ⟨⟨b, iovs, ret⟩, hcall, rfl⟩ := Option.map_eq_some_iff.mp hs
    by_cases h0 : len = 0
    · subst h0
      cases hcall
      rfl
    · obtain ⟨-, hle, -⟩ := hfits.resolve_left h0
      rw [getWriteBuffers_eq _ _ h0, ensureWritableSize_of_le hle] at hcall
      obtain ⟨_, _, heq⟩ := Option.map_eq_some_iff.mp hcall
      cases heq
      rfl
  rw [hsame]
  exact h

/-- **The invariant of the sessions** whose calls of `getWriteBuffers` fit. -/
theorem inv_of_reachable {heap : Nat → Nat → Byte} {first B : Nat} (hB : 0 < B)
    (h : (calls heap first B).ReachableBy Fitting s) : ∃ ws r, Inv s ws r := by
  refine h.invariant (I := fun s => ∃ ws r, Inv s ws r) ⟨[], 0, inv_init heap first hB⟩ ?_
  rintro s c s' ⟨ws, r, hinv⟩ hfits hs
  cases c with
  | write buf => exact ⟨ws ++ buf, r, hinv.write buf hs⟩
  | read size => exact ⟨ws, r + size, hinv.read size hs⟩
  | getWriteBuffers len => exact ⟨ws, r, hinv.getWriteBuffers hfits hs⟩

/-! ## When the buffers are free -/

/-- Where everything has been read and the last block has room, the cursor is in it. -/
theorem Inv.cursorAt (h : Inv s ws r) (hlen : 0 < len) (hpos : s.array.position = s.array.getTotalBytes)
    (hroom : len ≤ s.array.blockSize - s.array.lastNodeBytesUsed) :
    CursorAt s.array r ∧ r = ws.length ∧ s.array.currentNode = some s.array.lastNode ∧
      s.array.currNodePosition = s.array.lastNodeBytesUsed := by
  rw [h.stored.getTotalBytes_eq] at hpos
  rcases h.cursor with hc | ⟨hnull, -⟩
  · have hr : r = ws.length := hc.position_eq.symm.trans hpos
    refine ⟨hc, hr, ?_⟩
    obtain ⟨hlt, i, -, hcur, hi⟩ := hc
    rw [hr, h.stored.length_eq] at hi
    have hused : s.array.lastNodeBytesUsed < s.array.blockSize := by omega
    have hnode : i = s.array.lastNode := by
      have hdiv := congrArg (· / s.array.blockSize) hi
      simpa only [Nat.add_comm, Nat.add_mul_div_right _ _ h.stored.blockSize_pos, Nat.div_eq_of_lt hlt,
        Nat.div_eq_of_lt hused, Nat.zero_add, Nat.add_zero] using hdiv
    rw [hnode] at hi hcur
    exact ⟨hcur, Nat.add_left_cancel hi⟩
  · -- a null cursor is behind the chain, so the last node would be full
    have hfull : ws.length = s.array.nodes.length * s.array.blockSize := by
      rw [← hpos, position, hnull]
    have hused := used_of_full h.stored hfull
    omega

/-- Then there is one buffer, in the last node. -/
theorem Inv.buffersFromCursor (h : Inv s ws r) (hlen : 0 < len)
    (hpos : s.array.position = s.array.getTotalBytes)
    (hroom : len ≤ s.array.blockSize - s.array.lastNodeBytesUsed) :
    s.array.buffersFromCursor len = some [⟨s.array.lastNode, s.array.lastNodeBytesUsed, len⟩] := by
  obtain ⟨-, -, hcur, hused⟩ := h.cursorAt hlen hpos hroom
  obtain ⟨n, rfl⟩ := Nat.exists_eq_succ_of_ne_zero (Nat.pos_iff_ne_zero.mp hlen)
  have hnode : s.array.lastNode < s.array.nodes.length := by
    rw [h.stored.length_nodes]
    exact Nat.lt_succ_self _
  rw [ByteArray.buffersFromCursor, chain, hcur, hused]
  dsimp only
  rw [List.drop_eq_getElem_cons hnode]
  exact if_pos hroom

theorem Inv.freeSpace (h : Inv s ws r) (hlen : 0 < len) (hfits : Fits s.array len) :
    FreeSpace s len := by
  obtain ⟨hpos, hroom, hmemory⟩ := hfits
  have hiovs := h.buffersFromCursor hlen hpos hroom
  have htotal := h.stored.getTotalBytes_eq
  have hlength := h.stored.length_eq
  have hstart : (⟨s.array.lastNode, s.array.lastNodeBytesUsed, len⟩ : Iovec).start s.array.blockSize =
      s.array.getTotalBytes := by rw [htotal, hlength, Segment.start]
  intro buffers
  refine ⟨s.array, [⟨s.array.lastNode, s.array.lastNodeBytesUsed, len⟩], ?_, List.sum_singleton,
    List.pairwise_singleton _ _, ?_, rfl, fun _ _ => rfl⟩
  · rw [getWriteBuffers_eq _ _ (Nat.pos_iff_ne_zero.mp hlen), ensureWritableSize_of_le hroom, hiovs]
    rfl
  · intro iov hiov
    rw [List.mem_singleton.mp hiov, hstart]
    refine ⟨?_, ?_, hmemory, Nat.le_refl _, fun p hp _ => .inl hp⟩
    · show s.array.lastNode < s.array.nodes.length
      rw [h.stored.length_nodes]
      exact Nat.lt_succ_self _
    · show s.array.lastNodeBytesUsed + len ≤ s.array.blockSize
      omega

theorem Inv.fits_of_freeSpace (h : Inv s ws r) (hlen : 0 < len) (hfree : FreeSpace s len) :
    Fits s.array len := by
  obtain ⟨b, iovs, hcall, -, -, hbehind, hreadable, -⟩ := hfree []
  rw [getWriteBuffers_eq _ _ (Nat.pos_iff_ne_zero.mp hlen)] at hcall
  obtain ⟨_, hiovs, heq⟩ := Option.map_eq_some_iff.mp hcall
  cases heq
  -- a new node would have changed what is readable
  have hroom : len ≤ s.array.blockSize - s.array.lastNodeBytesUsed := by
    by_contra hgrow
    have hlt := getReadableBytes_ensureWritableSize h.stored (Nat.not_le.mp hgrow)
    omega
  rw [ensureWritableSize_of_le hroom] at hiovs hbehind
  have hpos : s.array.position = s.array.getTotalBytes := by
    rcases h.cursor with hc | ⟨hnull, -⟩
    · -- the first buffer starts at the cursor
      have hle := h.le
      have hused := h.stored.used_le
      have hin : r + len ≤ s.array.nodes.length * s.array.blockSize := by
        have hlength := h.stored.length_eq
        rw [h.stored.length_nodes, Nat.succ_mul]
        omega
      obtain ⟨iovs₁, hiovs', htiles⟩ := buffersFromCursor_eq hc hin
      obtain rfl : iovs₁ = iovs := Option.some.inj (hiovs'.symm.trans hiovs)
      cases iovs₁ with
      | nil =>
        have hsum : r = r + len := htiles
        omega
      | cons iov iovs =>
        obtain ⟨hstart, -⟩ := htiles
        obtain ⟨-, -, -, hlow, -⟩ := hbehind iov List.mem_cons_self
        rw [hstart, h.stored.getTotalBytes_eq] at hlow
        rw [hc.position_eq, h.stored.getTotalBytes_eq]
        omega
    · rw [buffersFromCursor_null hnull hlen] at hiovs
      cases hiovs
  refine ⟨hpos, hroom, ?_⟩
  obtain rfl := Option.some.inj ((h.buffersFromCursor hlen hpos hroom).symm.trans hiovs)
  exact (hbehind _ List.mem_cons_self).2.2.1

/-- **The buffers are free if and only if everything has been read and they fit into the last node**, in
every session whose calls of `getWriteBuffers` have done so. -/
theorem freeSpace_iff (heap : Nat → Nat → Byte) (first : Nat) {B : Nat} (hB : 0 < B)
    (h : (calls heap first B).ReachableBy Fitting s) (hlen : 0 < len) :
    FreeSpace s len ↔ Fits s.array len := by
  obtain ⟨ws, r, hinv⟩ := inv_of_reachable hB h
  exact ⟨hinv.fits_of_freeSpace hlen, hinv.freeSpace hlen⟩

/-- What was written has been read, and six bytes of the node are left. -/
theorem freeSpace_iff_drained :
    ∃ s, (calls (fun _ _ => 0) 8 8).runBy Fitting ⟨new (fun _ _ => 0) 8 8, 0⟩ [.write [1, 2], .read 2] =
        some s ∧ (FreeSpace s 3 ↔ Fits s.array 3) := by
  obtain ⟨s, hs⟩ : ∃ s, (calls (fun _ _ => 0) 8 8).runBy Fitting ⟨new (fun _ _ => 0) 8 8, 0⟩
      [.write [1, 2], .read 2] = some s := ⟨_, rfl⟩
  exact ⟨s, hs, freeSpace_iff (fun _ _ => 0) 8 (B := 8) (by decide) (.of_runBy .init hs) (by decide)⟩

/-- A byte that was written and not read is handed out. -/
theorem not_freeSpace :
    ¬ ∀ s, (calls (fun _ _ => 0) 8 8).Reachable s → ∀ len, 0 < len → FreeSpace s len := by
  intro h
  obtain ⟨b, hwrite, hb⟩ : ∃ b, (new (fun _ _ => 0) 8 8).write [1] = some b ∧ ¬ Fits b 1 :=
    ⟨_, rfl, by decide⟩
  have hs : step ⟨new (fun _ _ => 0) 8 8, 0⟩ (.write [1]) = some ⟨b, 1⟩ := by
    rw [step, hwrite]
    rfl
  have hinv := (inv_init (fun _ _ => 0) 8 (B := 8) (by decide)).write [1] hs
  have hreach : (calls (fun _ _ => 0) 8 8).Reachable ⟨b, 1⟩ :=
    .step (a := .write [1]) .init trivial hs
  exact hb (hinv.fits_of_freeSpace Nat.one_pos (h _ hreach 1 Nat.one_pos))

end Session

end Nemo.ByteArray
