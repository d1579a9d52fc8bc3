import Nemo.Container.ByteArrayBuffers

/-!
# Writing a `ByteArray` to a file

The loop of `writeToFile` walks along the chain from the read cursor on, for as many bytes as
`getReadableBytes` says. That count does not fall when bytes are read. So it is right only for an array
from which nothing has been read (`fileHoldsUnread_iff`).
-/

namespace Nemo.ByteArray

open Infra

/--
The loop, with the chain from `nodeToWrite` on, the `curr`th node. Gives the bytes of each `append`. The
difference of two `size_t` wraps, and a call with more bytes than the node still has reads beyond it
(`none`).
-/
def writeToFileLoop (b : ByteArray) : List (List Byte) → Nat → Nat → Nat → Option (List (List Byte))
  | _, _, 0, _ => some []
  | [], _, _ + 1, _ => none
  | node :: chain, curr, readSize + 1, pos =>
    let readSize := readSize + 1
    let len := (min b.blockSize readSize + 2 ^ 64 - pos) % 2 ^ 64
    if pos + len > min node.length (b.nodeSize curr) then none
    else do
      let appended ← writeToFileLoop b chain (curr + 1) (readSize - len) ((pos + len) % b.blockSize)
      return slice node pos (pos + len) :: appended

/-- What is returned, and what the `FileAppender` is given. `isOpen` says whether the file was opened. -/
def writeToFile (b : ByteArray) (isOpen : Bool) : Option (Bool × List (List Byte)) :=
  if isOpen then
    (writeToFileLoop b b.chain (b.currentNode.getD 0) b.getReadableBytes b.currNodePosition).map
      fun appended => (true, appended)
  else some (false, [])

/-! ## The loop -/

variable {b : ByteArray} {chain : List (List Byte)}

/-- From the start of a node, whole nodes are written, and then a part of one. -/
theorem writeToFileLoop_start (hB : 0 < b.blockSize) (hint : b.blockSize < 2 ^ 31)
    (hb : Blocks b.blockSize chain) (curr : Nat) {readSize : Nat}
    (hsize : readSize ≤ chain.length * b.blockSize)
    (hroom : curr = 0 → min b.blockSize readSize ≤ b.firstSize) :
    ∃ appended, writeToFileLoop b chain curr readSize 0 = some appended ∧
      appended.flatten = chain.flatten.take readSize := by
  generalize hblock : b.blockSize = B at *
  induction chain generalizing curr readSize with
  | nil =>
    rw [List.length_nil, Nat.zero_mul, Nat.le_zero] at hsize
    subst hsize
    exact ⟨[], by rw [writeToFileLoop], rfl⟩
  | cons node chain ih =>
    cases readSize with
    | zero => exact ⟨[], by rw [writeToFileLoop], rfl⟩
    | succ readSize =>
      have hlen : (min B (readSize + 1) + 2 ^ 64 - 0) % 2 ^ 64 = min B (readSize + 1) := by omega
      have hnode := hb.head
      have hmemory : min B (readSize + 1) ≤ b.nodeSize curr := by
        unfold nodeSize
        split
        · next h0 => exact hroom h0
        · rw [hblock]
          exact Nat.min_le_left _ _
      rw [List.length_cons, Nat.succ_mul] at hsize
      rw [writeToFileLoop, hblock, hlen, Nat.zero_add, hnode, if_neg (by omega)]
      by_cases hfit : readSize + 1 ≤ B
      · -- this is the last node
        rw [Nat.min_eq_right hfit, Nat.sub_self, writeToFileLoop]
        refine ⟨[slice node 0 (readSize + 1)], rfl, ?_⟩
        rw [List.flatten_cons, List.flatten_nil, List.append_nil, List.flatten_cons,
          List.take_append_of_le_length (by omega)]
        rfl
      · rw [Nat.min_eq_left (by omega), Nat.mod_self]
        have hrest : readSize + 1 - B ≤ chain.length * B := by omega
        obtain ⟨appended, hloop, hflat⟩ := ih (curr + 1) hb.tail hrest fun h => absurd h (Nat.succ_ne_zero curr)
        rw [hloop]
        refine ⟨slice node 0 B :: appended, rfl, ?_⟩
        rw [List.flatten_cons, hflat, List.flatten_cons, List.take_append, slice, List.drop_zero, Nat.sub_zero,
          List.take_of_length_le (Nat.le_of_eq hnode),
          List.take_of_length_le (show node.length ≤ readSize + 1 by omega), hnode]

/-- If no call reads beyond its node, then no difference has wrapped, and as much is written as was asked for. -/
theorem length_of_writeToFileLoop (hB : 0 < b.blockSize) (hint : b.blockSize < 2 ^ 31)
    (hb : Blocks b.blockSize chain) {curr readSize pos : Nat} (hpos : pos < b.blockSize)
    {appended : List (List Byte)} (h : writeToFileLoop b chain curr readSize pos = some appended) :
    appended.flatten.length = readSize := by
  induction chain generalizing curr readSize pos appended with
  | nil =>
    cases readSize with
    | zero =>
      rw [writeToFileLoop] at h
      cases h
      rfl
    | succ readSize =>
      rw [writeToFileLoop] at h
      cases h
  | cons node chain ih =>
    cases readSize with
    | zero =>
      rw [writeToFileLoop] at h
      cases h
      rfl
    | succ readSize =>
      rw [writeToFileLoop] at h
      have hnode := hb.head
      generalize hlen : (min b.blockSize (readSize + 1) + 2 ^ 64 - pos) % 2 ^ 64 = len at h
      split at h
      · cases h
      · next hin =>
        have hin : pos + len ≤ b.blockSize := by omega
        have hle : len ≤ readSize + 1 := by omega
        obtain ⟨rest, hrest, heq⟩ := Option.bind_eq_some_iff.mp h
        cases heq
        have ih' := ih hb.tail (Nat.mod_lt _ hB) hrest
        rw [List.flatten_cons, List.length_append, ih', length_slice (hnode ▸ hin),
          Nat.add_sub_cancel_left]
        omega

/-! ## The file -/

/-- No null node is followed, nothing beyond a node is read, and what is appended is `unread`. -/
def WritesUnread (b : ByteArray) (unread : List Byte) : Prop :=
  ∃ appended, b.writeToFile true = some (true, appended) ∧ appended.flatten = unread

section

variable {ws : List Byte} {r : Nat}

theorem writesUnread_of_unread (h : Stored b ws) (hc : CursorAt b 0) (hint : b.blockSize < 2 ^ 31) :
    WritesUnread b ws := by
  obtain ⟨hlt, i, hi, hcur, hpos⟩ := hc
  obtain ⟨hmul, hp⟩ := Nat.add_eq_zero_iff.mp hpos
  have hi0 : i = 0 := (Nat.mul_eq_zero.mp hmul).resolve_right (Nat.ne_of_gt h.blockSize_pos)
  obtain ⟨appended, hloop, hflat⟩ :=
    writeToFileLoop_start h.blockSize_pos hint h.blocks 0 h.stored_le fun _ => h.room
  have hchain : b.chain = b.nodes := by
    rw [chain, hcur, hi0]
    rfl
  refine ⟨appended, ?_, hflat.trans h.contents⟩
  rw [writeToFile, if_pos rfl, hchain, hcur, hi0, hp, h.getReadableBytes_eq, Option.getD_some, hloop]
  rfl

/-- Only as many bytes as were written can be appended. -/
theorem read_eq_zero_of_writesUnread (h : Holds b ws r) (hint : b.blockSize < 2 ^ 31)
    (hw : WritesUnread b (ws.drop r)) : r = 0 := by
  have hle := h.le
  obtain ⟨appended, happend, hflat⟩ := hw
  rw [writeToFile, if_pos rfl, h.stored.getReadableBytes_eq] at happend
  obtain ⟨bytes, hloop, heq⟩ := Option.map_eq_some_iff.mp happend
  cases heq
  rcases h.cursor with hc | ⟨hnull, -, -⟩
  · obtain ⟨hlt, i, -, hcur, -⟩ := hc
    have hblocks : Blocks b.blockSize b.chain := by
      rw [chain, hcur]
      exact h.stored.blocks.drop i
    have hlen := length_of_writeToFileLoop h.stored.blockSize_pos hint hblocks hlt hloop
    rw [hflat, List.length_drop] at hlen
    omega
  · -- a null node is followed, unless there is nothing to write
    have hchain : b.chain = [] := by rw [chain, hnull]
    rw [hchain] at hloop
    cases hws : ws.length with
    | zero => omega
    | succ n =>
      rw [hws, writeToFileLoop] at hloop
      cases hloop

end

/--
Writes and then reads of what was written, all of which have a result, leave an array of which `writeToFile`
writes the unread bytes.
-/
def FileHoldsUnread (heap : Nat → Nat → Byte) (first B : Nat) (bufs : List (List Byte)) (sizes : List Nat) :
    Prop :=
  ∃ results b, (new heap first B).run (bufs.map .write ++ sizes.map .read) = some (results, b) ∧
    WritesUnread b (bufs.flatten.drop sizes.sum)

/--
**`writeToFile` writes the unread bytes exactly if nothing has been read**, and the first node has room for
what is written, or for a block of it. The block size is an `int`.
-/
theorem fileHoldsUnread_iff (heap : Nat → Nat → Byte) (first : Nat) {B : Nat} (hB : 0 < B)
    (hint : B < 2 ^ 31) (bufs : List (List Byte)) (sizes : List Nat)
    (hsizes : sizes.sum ≤ bufs.flatten.length) :
    FileHoldsUnread heap first B bufs sizes ↔ min B bufs.flatten.length ≤ first ∧ sizes.sum = 0 := by
  by_cases hroom : min B bufs.flatten.length ≤ first
  swap
  · exact iff_of_false (fun ⟨results, b, hrun, _⟩ => hroom (room_of_run hB hrun)) fun h => hroom h.1
  obtain ⟨results, b, hrun, h⟩ := run_writes_reads heap hB hsizes hroom
  obtain ⟨_, -, hsize, -⟩ := stored_of_run (r := 0) (stored_new heap first hB) hrun
  have hb : b.blockSize < 2 ^ 31 := hsize.symm ▸ hint
  rw [and_iff_right hroom]
  constructor
  · rintro ⟨results', b', hrun', hwrites⟩
    obtain rfl : b = b' := congrArg Prod.snd (Option.some.inj (hrun.symm.trans hrun'))
    exact read_eq_zero_of_writesUnread h hb hwrites
  · intro hzero
    rw [hzero] at h
    refine ⟨results, b, hrun, ?_⟩
    rw [hzero, List.drop_zero]
    rcases h.cursor with hc | ⟨-, hlen, hend⟩
    · exact writesUnread_of_unread h.stored hc hb
    · -- a chain has a node, so its end is behind something
      have hnodes : 0 < b.nodes.length := by
        rw [h.stored.length_nodes]
        exact Nat.succ_pos _
      have hpos := Nat.mul_pos hnodes h.stored.blockSize_pos
      omega

/-- Five bytes in blocks of three, and no byte read. -/
theorem fileHoldsUnread_fiveBytes :
    FileHoldsUnread (fun _ _ => 0) 3 3 [[1, 2], [3, 4, 5]] [0] ↔
      min 3 ([[1, 2], [3, 4, 5]] : List (List Byte)).flatten.length ≤ 3 ∧ [0].sum = 0 :=
  fileHoldsUnread_iff (fun _ _ => 0) 3 (by decide) (by decide) [[1, 2], [3, 4, 5]] [0] (by decide)

/-- One of two bytes has been read. The first length is one, and then a null node is followed. -/
theorem not_fileHoldsUnread : ¬ ∀ (heap : Nat → Nat → Byte) (first B : Nat), 0 < B → B < 2 ^ 31 →
    ∀ (bufs : List (List Byte)) (sizes : List Nat), sizes.sum ≤ bufs.flatten.length →
      FileHoldsUnread heap first B bufs sizes := by
  intro h
  obtain ⟨results, b, hrun, appended, happend, -⟩ :=
    h (fun _ _ => 0) 4 4 (by decide) (by decide) [[1, 2]] [1] (by decide)
  cases hrun
  cases happend

end Nemo.ByteArray
