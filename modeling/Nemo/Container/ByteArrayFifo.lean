import Mathlib.Data.Option.Basic
import Nemo.Container.ByteArray

/-!
# `ByteArray` is a queue until a full last block is drained

`Stored b ws` says that `b` holds the bytes `ws` that were written since the last `clear`, and
`CursorAt b r` that the next read starts at the position `r` of them. Writes keep both. A read
that ends at the end of the last block makes `currentNode_` null, and no later write links it
again: from there on every read of a byte follows the null pointer.

`getReadableBytes` counts what was written, whatever has been read.

All this is as long as the first node has room for what is written to it, which is a block at most. A
write beyond its memory has no result.
-/

namespace Nemo.ByteArray

open Infra

/-! ## The invariant -/

/-- `b` stores the bytes `ws`. -/
structure Stored (b : ByteArray) (ws : List Byte) : Prop where
  blockSize_pos : 0 < b.blockSize
  /-- What is in the first node has room there. -/
  room : min b.blockSize ws.length ≤ b.firstSize
  blocks : Blocks b.blockSize b.nodes
  count : b.nodes.length = b.nodeCount
  last : b.lastNode + 1 = b.nodeCount
  used_le : b.lastNodeBytesUsed ≤ b.blockSize
  used_pos : 0 < b.lastNode → 0 < b.lastNodeBytesUsed
  length_eq : ws.length = b.lastNode * b.blockSize + b.lastNodeBytesUsed
  contents : b.nodes.flatten.take ws.length = ws
  index : b.currNodeIndex = 0

/-- The next read starts at the position `r` of the stored bytes. -/
structure CursorAt (b : ByteArray) (r : Nat) : Prop where
  position_lt : b.currNodePosition < b.blockSize
  node : ∃ i < b.nodes.length, b.currentNode = some i ∧ i * b.blockSize + b.currNodePosition = r

theorem blocks_allocateNode (heap : Nat → Nat → Byte) (B k : Nat) :
    (allocateNode heap B k).length = B := by
  rw [allocateNode, List.length_map, List.length_range]

theorem stored_new (heap : Nat → Nat → Byte) (first : Nat) {B : Nat} (hB : 0 < B) :
    Stored (new heap first B) [] where
  blockSize_pos := hB
  room := Nat.le_trans (Nat.min_le_right _ _) (Nat.zero_le _)
  blocks := Blocks.nil.cons (blocks_allocateNode heap B 0)
  count := rfl
  last := rfl
  used_le := Nat.zero_le B
  used_pos := fun h => absurd h (Nat.lt_irrefl 0)
  length_eq := (Nat.zero_mul B).symm
  contents := rfl
  index := rfl

theorem cursorAt_new (heap : Nat → Nat → Byte) (first : Nat) {B : Nat} (hB : 0 < B) :
    CursorAt (new heap first B) 0 where
  position_lt := hB
  node := ⟨0, Nat.one_pos, rfl, Nat.zero_mul B⟩

namespace Stored

variable {b : ByteArray} {ws : List Byte}

theorem length_nodes (h : Stored b ws) : b.nodes.length = b.lastNode + 1 := h.count.trans h.last.symm

theorem stored_le (h : Stored b ws) : ws.length ≤ b.nodes.length * b.blockSize := by
  rw [h.length_eq, h.length_nodes, Nat.succ_mul]
  exact Nat.add_le_add_left h.used_le _

theorem with_heap (h : Stored b ws) (heap : Nat → Nat → Byte) : Stored { b with heap } ws :=
  ⟨h.blockSize_pos, h.room, h.blocks, h.count, h.last, h.used_le, h.used_pos, h.length_eq, h.contents,
    h.index⟩

/-- The count of `getReadableBytes` does not depend on what has been read. -/
theorem getReadableBytes_eq (h : Stored b ws) : b.getReadableBytes = ws.length := by
  rw [getReadableBytes, h.index, ← h.last, h.length_eq]
  rfl

/-- The end of the chain is reached when a nonempty, full last block has been read. -/
theorem end_iff (h : Stored b ws) {r : Nat} (hr : r ≤ ws.length) :
    r = b.nodes.length * b.blockSize ↔
      r = ws.length ∧ 0 < ws.length ∧ b.blockSize ∣ ws.length := by
  have hle := h.stored_le
  constructor
  · intro heq
    have hw : ws.length = b.nodes.length * b.blockSize := by omega
    refine ⟨by omega, ?_, hw ▸ Nat.dvd_mul_left _ _⟩
    rw [hw, h.length_nodes]
    exact Nat.mul_pos (Nat.succ_pos _) h.blockSize_pos
  · rintro ⟨heq, hpos, hdvd⟩
    have hused : b.blockSize ∣ b.lastNodeBytesUsed := by
      rw [h.length_eq] at hdvd
      exact (Nat.dvd_add_right (Nat.dvd_mul_left _ _)).mp hdvd
    have hup : 0 < b.lastNodeBytesUsed := by
      rcases Nat.eq_zero_or_pos b.lastNode with h0 | h0
      · rwa [h.length_eq, h0, Nat.zero_mul, Nat.zero_add] at hpos
      · exact h.used_pos h0
    have hfull : b.lastNodeBytesUsed = b.blockSize :=
      Nat.le_antisymm h.used_le (Nat.le_of_dvd hup hused)
    rw [heq, h.length_eq, hfull, h.length_nodes, Nat.succ_mul]

end Stored

/-! ## Writing -/

/-- The loop of `write` fills the chain from `nodePos` on. -/
theorem writeLoop_eq {B : Nat} {chain : List (List Byte)} (hb : Blocks B chain) {nodePos : Nat}
    (hp : nodePos ≤ B) (buf : List Byte) (h0 : 0 < buf.length)
    (hlen : nodePos + buf.length ≤ chain.length * B) :
    ∃ chain' moved nodePos', writeLoop B chain nodePos (B - nodePos) buf =
        some (chain', moved, nodePos') ∧
      Blocks B chain' ∧ chain'.length = chain.length ∧ 0 < nodePos' ∧ nodePos' ≤ B ∧
      moved * B + nodePos' = nodePos + buf.length ∧
      chain'.flatten.take (nodePos + buf.length) = chain.flatten.take nodePos ++ buf := by
  induction chain generalizing nodePos buf with
  | nil =>
    rw [List.length_nil, Nat.zero_mul] at hlen
    omega
  | cons node chain ih =>
    have hnode := hb.head
    rw [List.length_cons, Nat.succ_mul] at hlen
    by_cases hfit : buf.length ≤ B - nodePos
    · have hin : nodePos + buf.length ≤ node.length := by omega
      refine ⟨overwrite node nodePos buf :: chain, 0, nodePos + buf.length, ?_, ?_, rfl, by omega,
        by omega, by omega, ?_⟩
      · rw [writeLoop, if_pos hfit]
      · exact hb.tail.cons ((length_overwrite hin).trans hnode)
      · rw [List.flatten_cons, List.flatten_cons, List.take_append_of_le_length,
          List.take_append_of_le_length (by omega), take_overwrite hin]
        rw [length_overwrite hin]
        exact hin
    · -- the block is filled, and the rest goes to the next ones
      have hleft : (buf.take (B - nodePos)).length = B - nodePos := by
        rw [List.length_take]
        omega
      have hin : nodePos + (buf.take (B - nodePos)).length ≤ node.length := by omega
      have hrest : (buf.drop (B - nodePos)).length = buf.length - (B - nodePos) := List.length_drop
      obtain ⟨chain', moved, nodePos', heq, hb', hl', hpos, hle, hmoved, htake⟩ :=
        ih hb.tail (Nat.zero_le B) (buf.drop (B - nodePos)) (by omega) (by omega)
      rw [Nat.sub_zero] at heq
      rw [Nat.zero_add, List.take_zero, List.nil_append] at htake
      refine ⟨overwrite node nodePos (buf.take (B - nodePos)) :: chain', moved + 1, nodePos', ?_, ?_,
        ?_, hpos, hle, ?_, ?_⟩
      · rw [writeLoop, if_neg (by omega), heq]
        rfl
      · exact hb'.cons ((length_overwrite hin).trans hnode)
      · rw [List.length_cons, List.length_cons, hl']
      · rw [Nat.succ_mul]
        omega
      · have hw : (overwrite node nodePos (buf.take (B - nodePos))).length = B :=
          (length_overwrite hin).trans hnode
        have hover : overwrite node nodePos (buf.take (B - nodePos)) =
            node.take nodePos ++ buf.take (B - nodePos) := by
          have hall := take_overwrite hin
          rwa [List.take_of_length_le (by omega)] at hall
        have hcut : nodePos + buf.length =
            (overwrite node nodePos (buf.take (B - nodePos))).length +
              (buf.drop (B - nodePos)).length := by omega
        rw [List.flatten_cons, hcut, List.take_length_add_append, htake, hover, List.flatten_cons,
          List.take_append_of_le_length (by omega), List.append_assoc, List.take_append_drop]

/-- What `ensureWritableSize` leaves: room for `size` bytes, and no node too many. -/
theorem ensureWritableSize_eq {b : ByteArray} {ws : List Byte} (h : Stored b ws) {size : Nat}
    (h0 : 0 < size) : ∃ fresh, Blocks b.blockSize fresh ∧
      b.ensureWritableSize size =
        { b with nodes := b.nodes ++ fresh, nodeCount := b.nodeCount + fresh.length } ∧
      fresh.length * b.blockSize < b.lastNodeBytesUsed + size ∧
      b.lastNodeBytesUsed + size ≤ (fresh.length + 1) * b.blockSize := by
  have hB := h.blockSize_pos
  have hused := h.used_le
  unfold ensureWritableSize
  by_cases hfit : size ≤ b.blockSize - b.lastNodeBytesUsed
  · refine ⟨[], Blocks.nil, ?_, ?_, ?_⟩
    · rw [if_pos hfit, List.append_nil]
      rfl
    · rw [List.length_nil, Nat.zero_mul]
      omega
    · rw [List.length_nil, Nat.zero_add, Nat.one_mul]
      omega
  · dsimp only
    rw [if_neg hfit]
    generalize hneed : size - (b.blockSize - b.lastNodeBytesUsed) = need
    generalize hk : (if need % b.blockSize ≠ 0 then need / b.blockSize + 1
      else need / b.blockSize) = k
    have hdiv := Nat.div_add_mod need b.blockSize
    have hmod := Nat.mod_lt need hB
    have hbounds : k * b.blockSize < need + b.blockSize ∧ need ≤ k * b.blockSize := by
      rw [Nat.mul_comm] at hdiv
      split at hk
      · rw [← hk, Nat.succ_mul]
        omega
      · rw [← hk]
        omega
    refine ⟨(List.range k).map fun j => allocateNode b.heap b.blockSize (b.nodeCount + j), ?_, ?_, ?_,
      ?_⟩
    · intro node hn
      obtain ⟨j, -, rfl⟩ := List.mem_map.mp hn
      exact blocks_allocateNode _ _ _
    · rw [List.take_of_length_le (Nat.le_of_eq h.length_nodes), List.length_map, List.length_range]
    · rw [List.length_map, List.length_range]
      omega
    · rw [List.length_map, List.length_range, Nat.succ_mul]
      omega

/-- The last node has the bytes that are written to it if and only if the first node has room. -/
theorem Stored.hasBytes_iff {b : ByteArray} {ws buf : List Byte} (h : Stored b ws) :
    b.HasBytes (some b.lastNode) b.lastNodeBytesUsed
        (min (b.blockSize - b.lastNodeBytesUsed) buf.length) ↔
      min b.blockSize (ws ++ buf).length ≤ b.firstSize := by
  have hused := h.used_le
  have hroom := h.room
  have hlen := h.length_eq
  unfold HasBytes nodeSize
  rw [List.length_append]
  simp only [Option.mem_some_iff, forall_eq']
  by_cases h0 : b.lastNode = 0
  · rw [if_pos h0]
    rw [h0, Nat.zero_mul, Nat.zero_add] at hlen
    omega
  · -- the first node is full
    rw [if_neg h0]
    have hfull : b.blockSize ≤ b.lastNode * b.blockSize :=
      Nat.le_mul_of_pos_left _ (Nat.pos_of_ne_zero h0)
    omega

/-- A write for which the first node has no room. -/
theorem write_eq_none {b : ByteArray} {ws : List Byte} (h : Stored b ws) {buf : List Byte}
    (hroom : ¬ min b.blockSize (ws ++ buf).length ≤ b.firstSize) : b.write buf = none := by
  have h0 : buf.length ≠ 0 := by
    intro h0
    rw [List.length_append, h0, Nat.add_zero] at hroom
    exact hroom h.room
  obtain ⟨fresh, -, hens, -⟩ := ensureWritableSize_eq h (Nat.pos_of_ne_zero h0)
  rw [← h.hasBytes_iff] at hroom
  rw [write, if_neg h0, hens]
  exact congrArg (Option.bind · _) (if_neg hroom)

/-- **A write appends its bytes**, and does not move the read cursor. -/
theorem write_stored {b : ByteArray} {ws : List Byte} (h : Stored b ws) (buf : List Byte)
    (hroom : min b.blockSize (ws ++ buf).length ≤ b.firstSize) :
    ∃ b', b.write buf = some b' ∧ Stored b' (ws ++ buf) ∧ b'.blockSize = b.blockSize ∧
      b'.firstSize = b.firstSize ∧ b'.currentNode = b.currentNode ∧
      b'.currNodePosition = b.currNodePosition ∧ b.nodes.length ≤ b'.nodes.length := by
  by_cases h0 : buf.length = 0
  · refine ⟨b, if_pos h0, ?_, rfl, rfl, rfl, rfl, Nat.le_refl _⟩
    rwa [List.eq_nil_of_length_eq_zero h0, List.append_nil]
  obtain ⟨fresh, hfresh, hens, hlow, hhigh⟩ := ensureWritableSize_eq h (Nat.pos_of_ne_zero h0)
  have hlast := h.length_nodes
  have hdrop : (b.nodes.drop b.lastNode).length = 1 := by
    rw [List.length_drop]
    omega
  have hchain : (b.nodes ++ fresh).drop b.lastNode = b.nodes.drop b.lastNode ++ fresh :=
    List.drop_append_of_le_length (by omega)
  have hblocks : Blocks b.blockSize (b.nodes.drop b.lastNode ++ fresh) :=
    (h.blocks.drop _).append hfresh
  obtain ⟨chain', moved, nodePos', heq, hb', hl', hpos, hle, hmoved, htake⟩ :=
    writeLoop_eq hblocks h.used_le buf (Nat.pos_of_ne_zero h0) (by
      rwa [List.length_append, hdrop, Nat.add_comm 1])
  rw [List.length_append, hdrop] at hl'
  -- `lastNode_` stops at the last node
  have hmoved' : moved = fresh.length := by
    have h1 : moved * b.blockSize < (fresh.length + 1) * b.blockSize := by omega
    have h2 : fresh.length * b.blockSize < (moved + 1) * b.blockSize := by
      rw [Nat.succ_mul]
      omega
    have h3 := Nat.lt_of_mul_lt_mul_right h1
    have h4 := Nat.lt_of_mul_lt_mul_right h2
    omega
  have htakeLast : (b.nodes ++ fresh).take b.lastNode = b.nodes.take b.lastNode :=
    List.take_append_of_le_length (by omega)
  have hfront : (b.nodes.take b.lastNode).flatten.length = b.lastNode * b.blockSize := by
    rw [(h.blocks.take _).length_flatten, List.length_take]
    congr 1
    omega
  refine ⟨{ b with
    nodes := b.nodes.take b.lastNode ++ chain'
    nodeCount := b.nodeCount + fresh.length
    lastNode := b.lastNode + moved
    lastNodeBytesUsed := nodePos' }, ?_, ?_, rfl, rfl, rfl, rfl, ?_⟩
  · have hguard := h.hasBytes_iff.mpr hroom
    rw [write, if_neg h0, hens]
    simp only [hchain, heq, htakeLast]
    exact congrArg (Option.bind · _) (if_pos hguard)
  · have hcount := h.count
    refine ⟨h.blockSize_pos, hroom, (h.blocks.take _).append hb', ?_, ?_, hle, fun _ => hpos, ?_, ?_,
      h.index⟩
    · show (b.nodes.take b.lastNode ++ chain').length = b.nodeCount + fresh.length
      rw [List.length_append, List.length_take, hl']
      omega
    · show b.lastNode + moved + 1 = b.nodeCount + fresh.length
      omega
    · show (ws ++ buf).length = (b.lastNode + moved) * b.blockSize + nodePos'
      rw [List.length_append, h.length_eq, Nat.add_mul]
      omega
    · show (b.nodes.take b.lastNode ++ chain').flatten.take (ws ++ buf).length = ws ++ buf
      have hlen : (ws ++ buf).length =
          (b.nodes.take b.lastNode).flatten.length + (b.lastNodeBytesUsed + buf.length) := by
        rw [List.length_append, h.length_eq, hfront]
        omega
      have hused : (b.nodes.drop b.lastNode ++ fresh).flatten.take b.lastNodeBytesUsed =
          (b.nodes.drop b.lastNode).flatten.take b.lastNodeBytesUsed := by
        rw [List.flatten_append, List.take_append_of_le_length]
        rw [(h.blocks.drop _).length_flatten, hdrop, Nat.one_mul]
        exact h.used_le
      have hws : (b.nodes.take b.lastNode).flatten ++
          (b.nodes.drop b.lastNode).flatten.take b.lastNodeBytesUsed = ws := by
        have hc := h.contents
        rw [← List.take_append_drop b.lastNode b.nodes, List.flatten_append, h.length_eq, ← hfront,
          List.take_length_add_append] at hc
        exact hc
      rw [List.flatten_append, hlen, List.take_length_add_append, htake, hused, ← List.append_assoc,
        hws]
  · show b.nodes.length ≤ (b.nodes.take b.lastNode ++ chain').length
    rw [List.length_append, List.length_take, hl']
    omega

/-- A write that has a result has appended its bytes. -/
theorem stored_of_write {b b' : ByteArray} {ws buf : List Byte} (h : Stored b ws)
    (hw : b.write buf = some b') :
    Stored b' (ws ++ buf) ∧ b'.blockSize = b.blockSize ∧ b'.firstSize = b.firstSize ∧
      b'.currentNode = b.currentNode ∧ b'.currNodePosition = b.currNodePosition ∧
      b.nodes.length ≤ b'.nodes.length := by
  by_cases hroom : min b.blockSize (ws ++ buf).length ≤ b.firstSize
  · obtain ⟨b₁, hw₁, h₁⟩ := write_stored h buf hroom
    obtain rfl : b₁ = b' := Option.some.inj (hw₁.symm.trans hw)
    exact h₁
  · rw [write_eq_none h hroom] at hw
    cases hw

/-- The chain grows behind the cursor. -/
theorem CursorAt.of_write {b b' : ByteArray} {r : Nat} (h : CursorAt b r)
    (hsize : b'.blockSize = b.blockSize) (hcur : b'.currentNode = b.currentNode)
    (hpos : b'.currNodePosition = b.currNodePosition) (hlen : b.nodes.length ≤ b'.nodes.length) :
    CursorAt b' r := by
  obtain ⟨hp, i, hi, hnode, hr⟩ := h
  refine ⟨?_, i, by omega, hcur.trans hnode, ?_⟩
  · rwa [hpos, hsize]
  · rwa [hpos, hsize]

/-! ## Reading -/

/-- The loop of `read` gives the next bytes of the chain. -/
theorem readLoop_eq {B : Nat} (hB : 0 < B) {chain : List (List Byte)} (hb : Blocks B chain)
    {nodePos : Nat} (size : Nat) (hp : nodePos < B) (hlen : nodePos + size ≤ chain.length * B) :
    readLoop B chain nodePos (B - nodePos) size =
      some (slice chain.flatten nodePos (nodePos + size), chain.drop ((nodePos + size) / B),
        (nodePos + size) % B) := by
  induction chain generalizing nodePos size with
  | nil =>
    rw [List.length_nil, Nat.zero_mul] at hlen
    obtain rfl : nodePos = 0 := by omega
    obtain rfl : size = 0 := by omega
    simp [readLoop, slice]
  | cons node chain ih =>
    have hnode := hb.head
    cases size with
    | zero =>
      rw [readLoop, Nat.add_zero, Nat.div_eq_of_lt hp, Nat.mod_eq_of_lt hp, slice_self,
        List.drop_zero]
    | succ size =>
      rw [List.length_cons, Nat.succ_mul] at hlen
      rw [readLoop]
      split
      · next hin =>
        have hlt : nodePos + (size + 1) < B := by omega
        rw [Nat.div_eq_of_lt hlt, Nat.mod_eq_of_lt hlt, List.drop_zero, List.flatten_cons,
          slice_append_left (by omega)]
      · next hin =>
        split
        · next hend =>
          have heq : nodePos + (size + 1) = B := by omega
          rw [heq, Nat.div_self hB, Nat.mod_self, List.drop_one, List.tail_cons, List.flatten_cons,
            slice_append_left (by omega)]
        · next hend =>
          -- the rest comes from the next nodes
          have hrest : nodePos + (size + 1) = B + (size + 1 - (B - nodePos)) := by omega
          have hstep := ih hb.tail (size + 1 - (B - nodePos)) hB (by omega)
          rw [Nat.sub_zero, Nat.zero_add] at hstep
          have hsplit : slice (node :: chain).flatten nodePos (nodePos + (size + 1)) =
              slice node nodePos (nodePos + (B - nodePos)) ++
                slice chain.flatten 0 (size + 1 - (B - nodePos)) := by
            have hcut : nodePos + (B - nodePos) = node.length := by omega
            have htake : nodePos + (size + 1) - nodePos =
                (node.drop nodePos).length + (size + 1 - (B - nodePos)) := by
              rw [List.length_drop]
              omega
            rw [slice, slice, slice, List.flatten_cons, List.drop_append_of_le_length (by omega),
              htake, List.take_length_add_append, List.drop_zero, Nat.sub_zero, hcut,
              List.take_of_length_le (Nat.le_of_eq List.length_drop)]
          rw [hstep, hsplit, hrest, Nat.add_div_left _ hB, Nat.add_mod_left, List.drop_succ_cons]
          rfl

/-- A read of more than the chain has comes to its end. -/
theorem readLoop_eq_none {B : Nat} {chain : List (List Byte)} {nodePos size : Nat} (hp : nodePos ≤ B)
    (h0 : 0 < size) (hlen : chain.length * B < nodePos + size) :
    readLoop B chain nodePos (B - nodePos) size = none := by
  obtain ⟨size, rfl⟩ := Nat.exists_eq_succ_of_ne_zero (Nat.pos_iff_ne_zero.mp h0)
  induction chain generalizing nodePos size with
  | nil => rfl
  | cons node chain ih =>
    rw [List.length_cons, Nat.succ_mul] at hlen
    obtain ⟨rest, hrest⟩ : ∃ rest, size + 1 - (B - nodePos) = rest + 1 :=
      ⟨size - (B - nodePos), by omega⟩
    have hstep := ih (Nat.zero_le B) rest (Nat.succ_pos rest) (by omega)
    rw [Nat.sub_zero] at hstep
    rw [readLoop, if_neg (by omega), if_neg (by omega), hrest, hstep]
    rfl

/-- What a read does that follows no null pointer, and touches nothing behind the memory of the first node. -/
theorem read_cases {b b' : ByteArray} {size : Nat} {result : Except OutOfRange (List Byte)}
    (h : b.read size = some (result, b')) :
    (b.getReadableBytes < size ∧ result = .error { what := "not enough len" } ∧ b' = b) ∨
    ∃ bytes chain nodePos, result = .ok bytes ∧
      b.HasBytes b.currentNode b.currNodePosition (min (b.blockSize - b.currNodePosition) size) ∧
      b' = { b with currentNode := b.pointerTo chain, currNodePosition := nodePos } := by
  unfold read at h
  split at h
  · next hlt =>
    cases h
    exact .inl ⟨hlt, rfl, rfl⟩
  · obtain ⟨_, hguard, hrest⟩ := Option.bind_eq_some_iff.mp h
    obtain ⟨⟨bytes, chain, nodePos⟩, -, heq⟩ := Option.bind_eq_some_iff.mp hrest
    cases heq
    exact .inr ⟨bytes, chain, nodePos, rfl, (Option.guard_eq_some' _).mp hguard, rfl⟩

/-- A read changes the cursor only. -/
theorem stored_of_read {b b' : ByteArray} {ws : List Byte} {size : Nat}
    {result : Except OutOfRange (List Byte)} (h : Stored b ws)
    (hread : b.read size = some (result, b')) : Stored b' ws := by
  rcases read_cases hread with ⟨-, -, rfl⟩ | ⟨bytes, chain, nodePos, -, -, rfl⟩
  · exact h
  · exact ⟨h.blockSize_pos, h.room, h.blocks, h.count, h.last, h.used_le, h.used_pos, h.length_eq,
      h.contents, h.index⟩

theorem sizes_of_read {b b' : ByteArray} {size : Nat} {result : Except OutOfRange (List Byte)}
    (hread : b.read size = some (result, b')) :
    b'.blockSize = b.blockSize ∧ b'.firstSize = b.firstSize := by
  rcases read_cases hread with ⟨-, -, rfl⟩ | ⟨bytes, chain, nodePos, -, -, rfl⟩ <;> exact ⟨rfl, rfl⟩

section Reading

variable {b : ByteArray} {ws : List Byte} {r : Nat}

/-- A read from the first node stays in its memory if that has room for what it takes there. -/
theorem CursorAt.hasBytes_iff (hc : CursorAt b r) (size : Nat) :
    b.HasBytes b.currentNode b.currNodePosition (min (b.blockSize - b.currNodePosition) size) ↔
      (r < b.blockSize → min b.blockSize (r + size) ≤ b.firstSize) := by
  obtain ⟨hp, i, -, hcur, hr⟩ := hc
  unfold HasBytes nodeSize
  rw [hcur]
  simp only [Option.mem_some_iff, forall_eq']
  by_cases h0 : i = 0
  · rw [if_pos h0]
    rw [h0, Nat.zero_mul, Nat.zero_add] at hr
    omega
  · rw [if_neg h0]
    have hle : b.blockSize ≤ i * b.blockSize := Nat.le_mul_of_pos_left _ (Nat.pos_of_ne_zero h0)
    omega

/--
A read within the chain gives the bytes of the chain from the cursor on, also behind what is stored,
and moves the cursor by as many. At the end of the chain `currentNode_` becomes null.
-/
theorem read_chain (h : Stored b ws) (hc : CursorAt b r) (size : Nat) (hsize : size ≤ ws.length)
    (hroom : r < b.blockSize → min b.blockSize (r + size) ≤ b.firstSize)
    (hn : r + size ≤ b.nodes.length * b.blockSize) :
    ∃ b', b.read size = some (.ok (slice b.nodes.flatten r (r + size)), b') ∧ Stored b' ws ∧
      b'.blockSize = b.blockSize ∧ b'.firstSize = b.firstSize ∧ b'.nodes = b.nodes ∧
      (r + size = b.nodes.length * b.blockSize → b'.currentNode = none) ∧
      (r + size ≠ b.nodes.length * b.blockSize → CursorAt b' (r + size)) := by
  have hguard := (hc.hasBytes_iff size).mpr hroom
  obtain ⟨hp, i, hi, hcur, hr⟩ := hc
  have hB := h.blockSize_pos
  have hb : Blocks b.blockSize (b.nodes.drop i) := h.blocks.drop i
  have hsub : (b.nodes.length - i) * b.blockSize = b.nodes.length * b.blockSize - i * b.blockSize :=
    Nat.sub_mul _ _ _
  have hile : i * b.blockSize ≤ b.nodes.length * b.blockSize :=
    Nat.mul_le_mul_right _ (Nat.le_of_lt hi)
  have hloop := readLoop_eq hB hb size hp (by
    rw [List.length_drop]
    omega)
  generalize hb' : { b with
    currentNode := b.pointerTo ((b.nodes.drop i).drop ((b.currNodePosition + size) / b.blockSize))
    currNodePosition := (b.currNodePosition + size) % b.blockSize } = b'
  have hread : b.read size = some (.ok (slice b.nodes.flatten r (r + size)), b') := by
    have hbytes : slice (b.nodes.drop i).flatten b.currNodePosition (b.currNodePosition + size) =
        slice b.nodes.flatten r (r + size) := by
      rw [h.blocks.flatten_drop, slice, slice, List.drop_drop, hr, Nat.add_sub_cancel_left,
        Nat.add_sub_cancel_left]
    rw [hcur] at hguard
    rw [read, if_neg (by rw [h.getReadableBytes_eq]; omega), chain, hcur]
    simp only [hloop, hbytes, ← hb']
    exact congrArg (Option.bind · _) (if_pos hguard)
  have hdm := Nat.div_add_mod (b.currNodePosition + size) b.blockSize
  generalize hq : (b.currNodePosition + size) / b.blockSize = q at hb' hdm
  have hstop : r + size = (i + q) * b.blockSize + (b.currNodePosition + size) % b.blockSize := by
    rw [Nat.add_mul, Nat.mul_comm q]
    omega
  have hmod := Nat.mod_lt (b.currNodePosition + size) hB
  -- the position reached, in blocks
  have hbound : i + q ≤ b.nodes.length := by
    have hlt : (i + q) * b.blockSize < (b.nodes.length + 1) * b.blockSize := by
      rw [Nat.succ_mul]
      omega
    exact Nat.le_of_lt_succ (Nat.lt_of_mul_lt_mul_right hlt)
  have hlen : ((b.nodes.drop i).drop q).length = b.nodes.length - (i + q) := by
    rw [List.drop_drop, List.length_drop]
  refine ⟨b', hread, stored_of_read h hread, ?_, ?_, ?_, ?_, ?_⟩
  · rw [← hb']
  · rw [← hb']
  · rw [← hb']
  · intro hend
    have hall : b.nodes.length = i + q := by
      have hlt : b.nodes.length * b.blockSize < (i + q + 1) * b.blockSize := by
        rw [Nat.succ_mul]
        omega
      have h1 := Nat.lt_of_mul_lt_mul_right hlt
      omega
    have hnil : (b.nodes.drop i).drop q = [] := by
      apply List.eq_nil_of_length_eq_zero
      omega
    rw [← hb', hnil]
    rfl
  · intro hne
    have hlt : i + q < b.nodes.length := by
      rcases Nat.lt_or_eq_of_le hbound with hlt | heq
      · exact hlt
      · rw [heq] at hstop
        omega
    have hcons : ((b.nodes.drop i).drop q).isEmpty = false := by
      rw [List.isEmpty_eq_false_iff]
      intro hnil
      rw [hnil, List.length_nil] at hlen
      omega
    subst hb'
    refine ⟨hmod, i + q, hlt, ?_, hstop.symm⟩
    show b.pointerTo _ = _
    rw [pointerTo, hcons, hlen, if_neg Bool.false_ne_true]
    congr 1
    omega

/-- A read that goes behind the chain follows a null pointer. -/
theorem read_beyond (h : Stored b ws) (hc : CursorAt b r) {size : Nat} (hsize : size ≤ ws.length)
    (hn : b.nodes.length * b.blockSize < r + size) : b.read size = none := by
  obtain ⟨hp, i, hi, hcur, hr⟩ := hc
  have hsub : (b.nodes.length - i) * b.blockSize = b.nodes.length * b.blockSize - i * b.blockSize :=
    Nat.sub_mul _ _ _
  have hile : (i + 1) * b.blockSize ≤ b.nodes.length * b.blockSize := Nat.mul_le_mul_right _ hi
  rw [Nat.succ_mul] at hile
  have hloop : readLoop b.blockSize (b.nodes.drop i) b.currNodePosition
      (b.blockSize - b.currNodePosition) size = none :=
    readLoop_eq_none (Nat.le_of_lt hp) (by omega) (by
      rw [List.length_drop]
      omega)
  rw [read, if_neg (by rw [h.getReadableBytes_eq]; omega), chain, hcur]
  simp only [hloop]
  exact Option.bind_eq_none_iff.mpr fun _ _ => rfl

/-- What is stored is the front of the chain. -/
theorem Stored.slice_nodes (h : Stored b ws) {i j : Nat} (hj : j ≤ ws.length) :
    slice b.nodes.flatten i j = slice ws i j := by
  unfold slice
  conv_rhs => rw [← h.contents]
  rw [List.drop_take, List.take_take]
  congr 1
  omega

/--
**A read gives the bytes from the cursor on**, and moves the cursor by as many bytes. At the end
of the chain `currentNode_` becomes null.
-/
theorem read_eq (h : Stored b ws) (hc : CursorAt b r) (size : Nat) (hn : r + size ≤ ws.length) :
    ∃ b', b.read size = some (.ok (slice ws r (r + size)), b') ∧ Stored b' ws ∧
      b'.blockSize = b.blockSize ∧ b'.firstSize = b.firstSize ∧
      (r + size = b.nodes.length * b.blockSize → b'.currentNode = none) ∧
      (r + size ≠ b.nodes.length * b.blockSize → CursorAt b' (r + size)) := by
  have hle := h.stored_le
  have hroom := h.room
  obtain ⟨b', hread, h', hsize, hfirst, -, hend, hlive⟩ :=
    read_chain h hc size (by omega) (by omega) (by omega)
  rw [h.slice_nodes hn] at hread
  exact ⟨b', hread, h', hsize, hfirst, hend, hlive⟩

/-- A read of more than `getReadableBytes` throws, and changes nothing. -/
theorem read_outOfRange (h : Stored b ws) (size : Nat) (hn : ws.length < size) :
    b.read size = some (.error { what := "not enough len" }, b) := by
  rw [read, if_pos]
  rw [h.getReadableBytes_eq]
  exact hn

/-- Behind a null `currentNode_` only the empty read succeeds. -/
theorem read_null (h : Stored b ws) (hnull : b.currentNode = none) (size : Nat) (hn : size ≤ ws.length) :
    b.read size = if size = 0 then some (.ok [], b) else none := by
  have hguard : b.HasBytes none b.currNodePosition (min (b.blockSize - b.currNodePosition) size) := nofun
  rw [read, if_neg (by rw [h.getReadableBytes_eq]; omega), chain, hnull]
  simp only [guard, if_pos hguard, Option.pure_def, Option.bind_eq_bind, Option.bind_some]
  cases size with
  | zero =>
    show some (_, { b with currentNode := none, currNodePosition := b.currNodePosition }) = _
    rw [← hnull]
    rfl
  | succ size => rfl

end Reading

theorem clear_stored {b : ByteArray} {ws : List Byte} (h : Stored b ws) : Stored b.clear [] where
  blockSize_pos := h.blockSize_pos
  room := Nat.le_trans (Nat.min_le_right _ _) (Nat.zero_le _)
  blocks := h.blocks.take 1
  count := by
    show (b.nodes.take 1).length = 1
    rw [List.length_take, h.length_nodes]
    omega
  last := rfl
  used_le := Nat.zero_le _
  used_pos := fun h => absurd h (Nat.lt_irrefl 0)
  length_eq := (Nat.zero_mul _).symm
  contents := rfl
  index := rfl

theorem clear_cursorAt {b : ByteArray} {ws : List Byte} (h : Stored b ws) :
    CursorAt b.clear 0 where
  position_lt := h.blockSize_pos
  node := by
    refine ⟨0, ?_, rfl, Nat.zero_mul _⟩
    rw [(clear_stored h).length_nodes]
    exact Nat.succ_pos _

/-! ## The queue -/

/-- Everything written has been read, and it fills its blocks. -/
def FullDrain (B : Nat) (c : Fifo.Counts) : Prop :=
  c.read = c.written ∧ 0 < c.written ∧ B ∣ c.written

instance (B : Nat) (c : Fifo.Counts) : Decidable (FullDrain B c) :=
  inferInstanceAs (Decidable (_ ∧ _ ∧ _))

/-- From the counts `c` on, no byte is read after a full drain. -/
def NoReadAfterFullDrain (B : Nat) (c : Fifo.Counts) (ops : List (Fifo.Op Byte)) : Prop :=
  ∀ pre size post, ops = pre ++ .read size :: post → 0 < size →
    ∀ p, p <+: pre → ¬ FullDrain B (c.after p)

theorem NoReadAfterFullDrain.cons_iff {B : Nat} {c : Fifo.Counts} (hc : ¬ FullDrain B c)
    (op : Fifo.Op Byte) (ops : List (Fifo.Op Byte)) :
    NoReadAfterFullDrain B c (op :: ops) ↔ NoReadAfterFullDrain B (c.step op) ops := by
  constructor
  · rintro h pre size post rfl hs p hp
    exact h (op :: pre) size post rfl hs (op :: p) (List.cons_prefix_cons.mpr ⟨rfl, hp⟩)
  · intro h pre size post heq hs p hp
    cases p with
    | nil => exact hc
    | cons a p =>
      cases pre with
      | nil => exact absurd (List.prefix_nil.mp hp) (List.cons_ne_nil _ _)
      | cons a' pre =>
        obtain ⟨rfl, hpre⟩ := List.cons_prefix_cons.mp hp
        rw [List.cons_append] at heq
        obtain ⟨rfl, hops⟩ := List.cons.inj heq
        exact h pre size post hops hs p hpre

theorem NoReadAfterFullDrain.of_drained {B : Nat} {c : Fifo.Counts} (hc : FullDrain B c)
    (ops : List (Fifo.Op Byte)) :
    NoReadAfterFullDrain B c ops ↔ ∀ size, .read size ∈ ops → size = 0 := by
  constructor
  · intro h size hm
    obtain ⟨pre, post, rfl⟩ := List.append_of_mem hm
    by_contra hs
    exact h pre size post rfl (Nat.pos_of_ne_zero hs) [] List.nil_prefix hc
  · rintro h pre size post rfl hs
    have h0 := h size (List.mem_append_right _ List.mem_cons_self)
    omega

theorem run_read {b b' b'' : ByteArray} {size : Nat} {result : Except OutOfRange (List Byte)}
    {results : List (Except OutOfRange (List Byte))} {ops : List (Fifo.Op Byte)}
    (h : b.read size = some (result, b')) (hrun : b'.run ops = some (results, b'')) :
    b.run (.read size :: ops) = some (result :: results, b'') := by
  rw [run, h, Option.bind_some]
  dsimp only
  rw [hrun]
  rfl

/-- A read that gives `bytes` is served if the calls after it are. -/
theorem run_read_iff {b b' : ByteArray} {size : Nat} {bytes : List Byte}
    (h : b.read size = some (.ok bytes, b')) (ops : List (Fifo.Op Byte))
    (answers : List (List Byte)) :
    (∃ b'', b.run (.read size :: ops) = some ((bytes :: answers).map .ok, b'')) ↔
      ∃ b'', b'.run ops = some (answers.map .ok, b'') := by
  constructor
  · rintro ⟨b'', hr⟩
    rw [run, h, Option.bind_some] at hr
    obtain ⟨⟨rs, b3⟩, hr, heq⟩ := Option.map_eq_some_iff.mp hr
    obtain ⟨hcons, -⟩ := Prod.mk.inj heq
    obtain ⟨-, hrs⟩ := List.cons.inj hcons
    exact ⟨b3, hrs ▸ hr⟩
  · rintro ⟨b'', hr⟩
    exact ⟨b'', run_read h hr⟩

/-- Room for all bytes is room for the first of them. -/
theorem room_of_append {first B : Nat} {bytes bytes' : List Byte}
    (h : min B (bytes ++ bytes').length ≤ first) : min B bytes.length ≤ first := by
  rw [List.length_append] at h
  omega

/-- Behind a null `currentNode_` the queue is served if and only if it serves no byte, and has room. -/
theorem run_null {ops : List (Fifo.Op Byte)} (hclear : .clear ∉ ops) {b : ByteArray}
    {ws queue rest : List Byte} {answers : List (List Byte)} (h : Stored b ws)
    (hnull : b.currentNode = none) (hq : queue.length ≤ ws.length)
    (hf : Fifo.run queue ops = some (answers, rest)) :
    (∃ b', b.run ops = some (answers.map .ok, b')) ↔
      min b.blockSize (ws ++ Fifo.written ops).length ≤ b.firstSize ∧
        ∀ size, .read size ∈ ops → size = 0 := by
  induction ops generalizing b ws queue answers with
  | nil =>
    cases hf
    rw [Fifo.written, List.append_nil]
    exact ⟨fun _ => ⟨h.room, fun _ hm => absurd hm List.not_mem_nil⟩, fun _ => ⟨b, rfl⟩⟩
  | cons op ops ih =>
    have hclear' : Fifo.Op.clear ∉ ops := fun hm => hclear (List.mem_cons_of_mem _ hm)
    cases op with
    | write buf =>
      rw [Fifo.written, ← List.append_assoc]
      by_cases hroom : min b.blockSize (ws ++ buf).length ≤ b.firstSize
      · obtain ⟨b', hw, h', hsize, hfirst, hcur, -, -⟩ := write_stored h buf hroom
        rw [run, hw, Option.bind_some, ih hclear' h' (hcur.trans hnull)
          (by rw [List.length_append, List.length_append]; omega) hf, hsize, hfirst]
        simp
      · rw [run, write_eq_none h hroom, Option.bind_none]
        exact iff_of_false (by simp) fun hall => hroom (room_of_append hall.1)
    | read size =>
      rw [Fifo.run] at hf
      split at hf
      · next hle =>
        rw [Option.map_eq_some_iff] at hf
        obtain ⟨⟨answers', rest'⟩, hf', heq⟩ := hf
        cases heq
        have hread := read_null h hnull size (by omega)
        by_cases h0 : size = 0
        · subst h0
          rw [List.drop_zero] at hf'
          rw [List.take_zero, run_read_iff hread, ih hclear' h hnull hq hf', Fifo.written]
          simp
        · rw [if_neg h0] at hread
          rw [run, hread, Option.bind_none]
          exact iff_of_false (by simp) fun hall => h0 (hall.2 size List.mem_cons_self)
      · cases hf
    | clear => exact absurd List.mem_cons_self hclear

/-- While `currentNode_` is not null, the queue is served until it has no room, or a byte is read after a full
drain. -/
theorem run_iff {ops : List (Fifo.Op Byte)} (hclear : .clear ∉ ops) {b : ByteArray}
    {ws rest : List Byte} {answers : List (List Byte)} {r : Nat} (h : Stored b ws)
    (hc : CursorAt b r) (hr : r ≤ ws.length)
    (hd : ¬ FullDrain b.blockSize { written := ws.length, read := r })
    (hf : Fifo.run (ws.drop r) ops = some (answers, rest)) :
    (∃ b', b.run ops = some (answers.map .ok, b')) ↔
      min b.blockSize (ws ++ Fifo.written ops).length ≤ b.firstSize ∧
        NoReadAfterFullDrain b.blockSize { written := ws.length, read := r } ops := by
  induction ops generalizing b ws answers r with
  | nil =>
    cases hf
    rw [Fifo.written, List.append_nil]
    refine ⟨fun _ => ⟨h.room, fun pre size post heq => ?_⟩, fun _ => ⟨b, rfl⟩⟩
    exact absurd heq.symm (List.append_ne_nil_of_right_ne_nil _ (List.cons_ne_nil _ _))
  | cons op ops ih =>
    have hclear' : Fifo.Op.clear ∉ ops := fun hm => hclear (List.mem_cons_of_mem _ hm)
    rw [NoReadAfterFullDrain.cons_iff hd]
    cases op with
    | write buf =>
      rw [Fifo.written, ← List.append_assoc]
      by_cases hroom : min b.blockSize (ws ++ buf).length ≤ b.firstSize
      swap
      · rw [run, write_eq_none h hroom, Option.bind_none]
        exact iff_of_false (by simp) fun hall => hroom (room_of_append hall.1)
      obtain ⟨b', hw, h', hsize, hfirst, hcur, hpos, hlen⟩ := write_stored h buf hroom
      have hc' : CursorAt b' r := hc.of_write hsize hcur hpos hlen
      have hd' : ¬ FullDrain b'.blockSize { written := (ws ++ buf).length, read := r } := by
        rintro ⟨heq, hpos', hdvd⟩
        have hlen' : (ws ++ buf).length = ws.length := by
          have heq' : r = (ws ++ buf).length := heq
          rw [List.length_append] at heq' ⊢
          omega
        rw [hlen'] at heq hpos' hdvd
        exact hd ⟨heq, hpos', hsize ▸ hdvd⟩
      have hq : Fifo.run ((ws ++ buf).drop r) ops = some (answers, rest) := by
        rw [List.drop_append_of_le_length hr]
        exact hf
      have hlength : (ws ++ buf).length = ws.length + buf.length := List.length_append
      rw [run, hw, Option.bind_some, ih hclear' h' hc' (by omega) hd' hq, hsize, hfirst, hlength]
      rfl
    | read size =>
      rw [Fifo.run] at hf
      split at hf
      · next hle =>
        rw [List.length_drop] at hle
        rw [Option.map_eq_some_iff] at hf
        obtain ⟨⟨answers', rest'⟩, hf', heq⟩ := hf
        cases heq
        obtain ⟨b', hread, h', hsize, hfirst, hend, hlive⟩ := read_eq h hc size (by omega)
        have hbytes : slice ws r (r + size) = (ws.drop r).take size := by
          rw [slice, Nat.add_sub_cancel_left]
        have hstep : ({ written := ws.length, read := r } : Fifo.Counts).step
            (.read size : Fifo.Op Byte) = { written := ws.length, read := r + size } := if_pos hle
        rw [List.drop_drop] at hf'
        rw [hbytes] at hread
        rw [run_read_iff hread, hstep, Fifo.written, ← hsize, ← hfirst]
        have hiff := h.end_iff (r := r + size) (by omega)
        by_cases hdone : r + size = b.nodes.length * b.blockSize
        · have hfull : FullDrain b'.blockSize { written := ws.length, read := r + size } := by
            rw [hsize]
            exact hiff.mp hdone
          rw [NoReadAfterFullDrain.of_drained hfull]
          exact run_null hclear' h' (hend hdone) (by rw [List.length_drop]; omega) hf'
        · refine ih hclear' h' (hlive hdone) (by omega) ?_ hf'
          rw [hsize]
          exact fun hfull => hdone (hiff.mpr hfull)
      · cases hf
    | clear => exact absurd List.mem_cons_self hclear

/-- What a queue does: every read is answered with the next bytes, in the order written. -/
def ServesQueue (b : ByteArray) (ops : List (Fifo.Op Byte)) (answers : List (List Byte)) : Prop :=
  (∃ b', b.run ops = some (answers.map .ok, b')) ∧ answers.flatten <+: Fifo.written ops

/--
**`ByteArray` refines a queue** on the calls that the queue answers, if and only if the first node has
room for what is written to it, and no byte is read after a full drain.
-/
theorem servesQueue_iff (heap : Nat → Nat → Byte) (first : Nat) {B : Nat} (hB : 0 < B)
    {ops : List (Fifo.Op Byte)} (hclear : .clear ∉ ops) {answers : List (List Byte)}
    {rest : List Byte} (hf : Fifo.run [] ops = some (answers, rest)) :
    ServesQueue (new heap first B) ops answers ↔
      min B (Fifo.written ops).length ≤ first ∧
        NoReadAfterFullDrain B { written := 0, read := 0 } ops := by
  have hpre : answers.flatten <+: Fifo.written ops := by
    have hall := Fifo.flatten_run hclear hf
    rw [List.nil_append] at hall
    exact ⟨rest, hall⟩
  have hiff := run_iff hclear (stored_new heap first hB) (cursorAt_new heap first hB) (Nat.le_refl 0)
    (fun hd => absurd hd.2.1 (Nat.lt_irrefl 0)) hf
  exact ⟨fun h => hiff.mp h.1, fun h => ⟨hiff.mpr h, hpre⟩⟩

/-- A read may end at the end of a block that is not the last one. -/
theorem servesQueue_twoBlocks : ServesQueue (new (fun _ _ => 0) 2 2)
    [.write [1, 2, 3], .read 2, .write [4, 5], .read 3] [[1, 2], [3, 4, 5]] := by
  refine (servesQueue_iff (fun _ _ => 0) 2 (by decide) (by decide) rfl).mpr ⟨by decide, ?_⟩
  refine (NoReadAfterFullDrain.cons_iff (by decide) _ _).mpr ?_
  refine (NoReadAfterFullDrain.cons_iff (by decide) _ _).mpr ?_
  refine (NoReadAfterFullDrain.cons_iff (by decide) _ _).mpr ?_
  refine (NoReadAfterFullDrain.cons_iff (by decide) _ _).mpr ?_
  intro pre size post heq
  exact absurd heq.symm (List.append_ne_nil_of_right_ne_nil _ (List.cons_ne_nil _ _))

/-- A full block is drained, the next write adds a block, and the read after it follows null. -/
theorem not_servesQueue : ¬ ∀ (heap : Nat → Nat → Byte) (first B : Nat), 0 < B →
    ∀ (ops : List (Fifo.Op Byte)) (answers : List (List Byte)) (rest : List Byte),
      .clear ∉ ops → Fifo.run [] ops = some (answers, rest) →
        ServesQueue (new heap first B) ops answers := by
  intro h
  obtain ⟨⟨b', hrun⟩, -⟩ := h (fun _ _ => 0) 1 1 Nat.one_pos
    [.write [1], .read 1, .write [2], .read 1] [[1], [2]] [] (by decide) rfl
  cases hrun

/-! ## The bounds -/

/-- `b` is exact about what it holds when `c` was written and read. -/
structure BoundsExact (b : ByteArray) (c : Fifo.Counts) : Prop where
  readable : b.getReadableBytes = c.written - c.read
  throws_iff : ∀ size, (∃ e b', b.read size = some (.error e, b')) ↔ c.written - c.read < size
  unchanged : ∀ size e b', b.read size = some (.error e, b') → b' = b

/-- No call of the run follows a null node, and `b` is exact after each of them. -/
def AlwaysExact (b : ByteArray) (ops : List (Fifo.Op Byte)) : Prop :=
  ∀ p, p <+: ops → ∃ results b', b.run p = some (results, b') ∧ BoundsExact b' (Fifo.counts p)

/-- Every run that has a result keeps the count of the bytes written, whatever its reads do. -/
theorem stored_of_run {ops : List (Fifo.Op Byte)} {b b' : ByteArray} {ws : List Byte}
    {results : List (Except OutOfRange (List Byte))} {r : Nat} (h : Stored b ws)
    (hrun : b.run ops = some (results, b')) :
    ∃ ws', Stored b' ws' ∧ b'.blockSize = b.blockSize ∧ b'.firstSize = b.firstSize ∧
      ws'.length = (Fifo.Counts.after { written := ws.length, read := r } ops).written := by
  induction ops generalizing b ws results r with
  | nil =>
    cases hrun
    exact ⟨ws, h, rfl, rfl, rfl⟩
  | cons op ops ih =>
    cases op with
    | write buf =>
      rw [run, Option.bind_eq_some_iff] at hrun
      obtain ⟨b1, hw, hrun⟩ := hrun
      obtain ⟨h1, hsize, hfirst, -⟩ := stored_of_write h hw
      obtain ⟨ws', h', hsize', hfirst', hlen⟩ := ih (r := r) h1 hrun
      rw [List.length_append] at hlen
      exact ⟨ws', h', hsize'.trans hsize, hfirst'.trans hfirst, hlen⟩
    | read size =>
      rw [run, Option.bind_eq_some_iff] at hrun
      obtain ⟨⟨result, b1⟩, hread, hrun⟩ := hrun
      obtain ⟨⟨results1, b2⟩, hrest, heq⟩ := Option.map_eq_some_iff.mp hrun
      obtain ⟨-, rfl⟩ := Prod.mk.inj heq
      have h1 : Stored b1 ws := stored_of_read h hread
      obtain ⟨hsize, hfirst⟩ := sizes_of_read hread
      rw [Fifo.Counts.after_cons, Fifo.Counts.step, ← hsize, ← hfirst]
      split
      · exact ih h1 hrest
      · exact ih h1 hrest
    | clear => exact ih (clear_stored h) hrun

/-- While no byte has been read, and the first node has room, the cursor stays at the first byte. -/
theorem run_unread {ops : List (Fifo.Op Byte)} {b : ByteArray} {ws : List Byte} (h : Stored b ws)
    (hc : CursorAt b 0)
    (hzero : ∀ p, p <+: ops →
      (Fifo.Counts.after { written := ws.length, read := 0 } p).read = 0 ∧
        min b.blockSize (Fifo.Counts.after { written := ws.length, read := 0 } p).written ≤ b.firstSize) :
    ∃ results b', b.run ops = some (results, b') ∧ CursorAt b' 0 := by
  induction ops generalizing b ws with
  | nil => exact ⟨[], b, rfl, hc⟩
  | cons op ops ih =>
    have hnext := fun p (hp : p <+: ops) => hzero (op :: p) (List.cons_prefix_cons.mpr ⟨rfl, hp⟩)
    simp only [Fifo.Counts.after_cons] at hnext
    cases op with
    | write buf =>
      have hroom : min b.blockSize (ws ++ buf).length ≤ b.firstSize := by
        rw [List.length_append]
        exact (hnext [] List.nil_prefix).2
      obtain ⟨b', hw, h', hsize, hfirst, hcur, hpos, hlen⟩ := write_stored h buf hroom
      have hc' : CursorAt b' 0 := hc.of_write hsize hcur hpos hlen
      obtain ⟨results, b'', hrun, hc''⟩ := ih h' hc' (by
        rw [List.length_append, hsize, hfirst]
        exact hnext)
      exact ⟨results, b'', by rw [run, hw]; exact hrun, hc''⟩
    | read size =>
      -- the read is empty or throws
      by_cases hle : size ≤ ws.length
      · have hstep : (Fifo.Counts.step { written := ws.length, read := 0 }
            (.read size : Fifo.Op Byte)) = { written := ws.length, read := 0 + size } :=
          if_pos (by rwa [Nat.sub_zero])
        have h0 : size = 0 := by
          have hnil := hnext [] List.nil_prefix
          rw [hstep] at hnil
          exact (Nat.zero_add size).symm.trans hnil.1
        subst h0
        obtain ⟨b', hread, h', hsize, hfirst, -, hlive⟩ := read_eq h hc 0 (Nat.zero_le _)
        have hne : 0 + 0 ≠ b.nodes.length * b.blockSize := by
          rw [h.length_nodes]
          have hpos : 0 < (b.lastNode + 1) * b.blockSize :=
            Nat.mul_pos (Nat.succ_pos _) h.blockSize_pos
          omega
        rw [hstep, ← hsize, ← hfirst] at hnext
        obtain ⟨results, b'', hrun, hc''⟩ := ih h' (hlive hne) hnext
        exact ⟨_, b'', run_read hread hrun, hc''⟩
      · have hstep : (Fifo.Counts.step { written := ws.length, read := 0 }
            (.read size : Fifo.Op Byte)) = { written := ws.length, read := 0 } :=
          if_neg (by rwa [Nat.sub_zero])
        obtain ⟨results, b'', hrun, hc''⟩ := ih h hc (hstep ▸ hnext)
        have hread := read_outOfRange h size (by omega)
        exact ⟨_, b'', run_read hread hrun, hc''⟩
    | clear =>
      obtain ⟨results, b', hrun, hc'⟩ := ih (clear_stored h) (clear_cursorAt h) hnext
      exact ⟨results, b', hrun, hc'⟩

/-- With nothing read, `b` is exact. -/
theorem boundsExact_unread {b : ByteArray} {ws : List Byte} (h : Stored b ws) (hc : CursorAt b 0) :
    BoundsExact b { written := ws.length, read := 0 } where
  readable := h.getReadableBytes_eq
  throws_iff size := by
    show _ ↔ ws.length < size
    constructor
    · rintro ⟨e, b', hread⟩
      by_contra hle
      obtain ⟨b1, hok, -⟩ := read_eq h hc size (by omega)
      rw [hok] at hread
      cases hread
    · intro hlt
      exact ⟨_, b, read_outOfRange h _ hlt⟩
  unchanged size e b' hread := by
    by_cases hlt : ws.length < size
    · rw [read_outOfRange h _ hlt] at hread
      cases hread
      rfl
    · obtain ⟨b1, hok, -⟩ := read_eq h hc size (by omega)
      rw [hok] at hread
      cases hread

/--
**The bounds are exact along a run if and only if the run reads no byte** (since its last `clear`,
at each of its states), and the first node has room for what is written to it.
-/
theorem boundsExact_iff (heap : Nat → Nat → Byte) (first : Nat) {B : Nat} (hB : 0 < B)
    (ops : List (Fifo.Op Byte)) :
    AlwaysExact (new heap first B) ops ↔
      ∀ p, p <+: ops → (Fifo.counts p).read = 0 ∧ min B (Fifo.counts p).written ≤ first := by
  constructor
  · intro h p hp
    obtain ⟨results, b, hrun, hb⟩ := h p hp
    obtain ⟨ws, hs, hsize, hfirst, hlen⟩ := stored_of_run (r := 0) (stored_new heap first hB) hrun
    have hroom := hs.room
    rw [hsize, hfirst, hlen] at hroom
    refine ⟨?_, hroom⟩
    have hread := hs.getReadableBytes_eq
    rw [hb.readable, hlen] at hread
    have hsub : (Fifo.counts p).written - (Fifo.counts p).read = (Fifo.counts p).written := hread
    have hle : (Fifo.counts p).read ≤ (Fifo.counts p).written :=
      Fifo.Counts.read_le_after (Nat.le_refl 0) p
    omega
  · intro h p hp
    obtain ⟨results, b, hrun, hc⟩ := run_unread (stored_new heap first hB) (cursorAt_new heap first hB)
      fun q hq => h q (hq.trans hp)
    obtain ⟨ws, hs, -, -, hlen⟩ := stored_of_run (r := 0) (stored_new heap first hB) hrun
    have hcounts : Fifo.counts p = { written := ws.length, read := 0 } := by
      have h0 := (h p hp).1
      have hw : ws.length = (Fifo.counts p).written := hlen
      generalize Fifo.counts p = c at h0 hw
      rw [hw, ← h0]
    exact ⟨results, b, hrun, hcounts ▸ boundsExact_unread hs hc⟩

/-- Writes, a read that throws, and `clear` leave the bounds exact. -/
theorem boundsExact_writes :
    AlwaysExact (new (fun _ _ => 0) 1 1) [.write [1, 2], .read 3, .clear, .write [4]] := by
  refine (boundsExact_iff _ 1 (by decide) _).mpr ?_
  intro p hp
  rw [← List.mem_inits] at hp
  revert p
  decide

/-- After a read of one of two bytes a read of two bytes does not throw. -/
theorem not_boundsExact : ¬ ∀ (heap : Nat → Nat → Byte) (first B : Nat), 0 < B →
    ∀ ops : List (Fifo.Op Byte), AlwaysExact (new heap first B) ops := by
  intro h
  obtain ⟨results, b, hrun, hb⟩ := h (fun _ _ => 0) 4 4 (by decide) [.write [1, 2], .read 1] _
    (List.prefix_refl _)
  obtain ⟨e, b', hread⟩ := (hb.throws_iff 2).mpr (by decide)
  cases hrun
  cases hread

end Nemo.ByteArray
