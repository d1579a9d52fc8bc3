import Mathlib.Algebra.Order.BigOperators.Group.List
import Mathlib.Data.PNat.Basic
import Nemo.Container.ByteArrayFifo
import Nemo.Infra.Chain

/-!
# `ByteArray` with its pointers

The nodes of `ByteArray` as they lie in memory, with the `next` of each. The loops follow the pointers; they have no
result once a null pointer, or a pointer to a node that is not allocated, is followed, or a node is touched behind its
memory.

* `write_represents`, `clear_represents` — the chain in memory is the list of blocks
* `holdsWritten_iff` — after writes and `clear`s, the chain from `firstNode_` ends at `lastNode_` and holds the bytes,
  if and only if the first node had room for them
-/

namespace Nemo

open Infra
open Function (update)

abbrev Address := Nat

/-- `malloc`: the address that the `k`th call finds beside those in use, and what is in that memory. -/
structure Malloc where
  address : Nat → List Address → Address
  contents : Nat → Nat → Byte
  fresh : ∀ k live, address k live ∉ live

instance : Inhabited Malloc where
  default :=
    { address _ live := live.sum + 1
      contents _ _ := 0
      fresh k live h := by
        exact absurd (List.single_le_sum (fun _ _ => Nat.zero_le _) _ h) (Nat.not_succ_le_self _) }

/-- The nodes: where each points to, how many bytes of data `malloc` gave it, and its data. -/
structure NodeMemory where
  next : Address → Option Address
  size : Address → Nat
  /-- A block; of the first one, the bytes from its size on are never touched. -/
  data : Address → List Byte
  live : List Address
  mallocs : Nat

structure LinkedByteArray where
  malloc : Malloc
  memory : NodeMemory
  firstNode : Address
  lastNode : Address
  currentNode : Option Address
  nodeCount : Nat
  currNodeIndex : Nat
  currNodePosition : Nat
  lastNodeBytesUsed : Nat
  blockSize : ℕ+

/-! ## The functions -/

namespace NodeMemory

/-- `Link` -/
def link (m : NodeMemory) (target node : Address) : Option NodeMemory :=
  if target ∈ m.live then some { m with next := update m.next target (some node) } else none

/-- `malloc` of a node with `size` bytes of data, and `newNode->next = nullptr` -/
def allocate (m : NodeMemory) (malloc : Malloc) (size blockSize : Nat) : NodeMemory × Address :=
  let newNode := malloc.address m.mallocs m.live
  ({ next := update m.next newNode none
     size := update m.size newNode size
     data := update m.data newNode (ByteArray.allocateNode malloc.contents blockSize m.mallocs)
     live := newNode :: m.live
     mallocs := m.mallocs + 1 }, newNode)

/-- The loop of `clear`: frees the nodes from `node` on. -/
def freeLoop (m : NodeMemory) (node : Option Address) : Option NodeMemory :=
  match node with
  | none => some m
  | some tmp =>
    if tmp ∈ m.live then freeLoop { m with live := m.live.erase tmp } (m.next tmp) else none
termination_by m.live.length
decreasing_by
  rename_i h
  have := List.length_pos_of_mem h
  simp only [List.length_erase_of_mem h]
  omega

/--
The loop of `write`. Gives the memory, `lastNode_` and `nodePos`. What is left to write is never empty here, so that
`lastNode` is followed.
-/
def writeLoop (blockSize : ℕ+) (m : NodeMemory) (lastNode : Option Address) (nodePos nodeBytesLeft : Nat)
    (buf : List Byte) : Option (NodeMemory × Address × Nat) :=
  match lastNode with
  | none => none
  | some node =>
    if node ∉ m.live ∨ nodePos + min nodeBytesLeft buf.length > m.size node then none
    else if nodeBytesLeft ≥ buf.length then
      some ({ m with data := update m.data node (overwrite (m.data node) nodePos buf) }, node, nodePos + buf.length)
    else
      writeLoop blockSize
        { m with data := update m.data node (overwrite (m.data node) nodePos (buf.take nodeBytesLeft)) }
        (m.next node) 0 blockSize (buf.drop nodeBytesLeft)
termination_by buf.length + if nodeBytesLeft = 0 then 1 else 0
decreasing_by
  have := blockSize.ne_zero
  rw [if_neg this, List.length_drop]
  split <;> omega

end NodeMemory

namespace LinkedByteArray

def allocateNode (b : LinkedByteArray) : LinkedByteArray × Address :=
  let (memory, newNode) := b.memory.allocate b.malloc b.blockSize b.blockSize
  ({ b with memory, nodeCount := b.nodeCount + 1 }, newNode)

/-- The loop of `ensureWritableSize`. -/
def linkNodes : Nat → LinkedByteArray → Address → Option LinkedByteArray
  | 0, b, _ => some b
  | nodesNeeded + 1, b, curr =>
    let (b, tmp) := b.allocateNode
    (b.memory.link curr tmp).bind fun memory => linkNodes nodesNeeded { b with memory } tmp

def ensureWritableSize (b : LinkedByteArray) (size : Nat) : Option LinkedByteArray :=
  let lastNodeBytesLeft := b.blockSize - b.lastNodeBytesUsed
  if size ≤ lastNodeBytesLeft then some b
  else
    let sizeNeeded := size - lastNodeBytesLeft
    let nodesNeeded := sizeNeeded / b.blockSize
    let nodesNeeded := if sizeNeeded % b.blockSize ≠ 0 then nodesNeeded + 1 else nodesNeeded
    linkNodes nodesNeeded b b.lastNode

/-- The constructor, where the first `malloc` gives `firstSize` bytes of data. -/
def new (malloc : Malloc) (firstSize : Nat) (blockSize : ℕ+) : LinkedByteArray :=
  let empty : NodeMemory := { next _ := none, size _ := 0, data _ := [], live := [], mallocs := 0 }
  -- `blockSize_` is initialized after `firstNode_`
  let (memory, firstNode) := empty.allocate malloc firstSize blockSize
  { malloc
    memory
    firstNode
    lastNode := firstNode
    currentNode := some firstNode
    nodeCount := 1
    currNodeIndex := 0
    currNodePosition := 0
    lastNodeBytesUsed := 0
    blockSize }

def write (b : LinkedByteArray) (buf : List Byte) : Option LinkedByteArray :=
  if buf.length = 0 then some b
  else do
    let b ← b.ensureWritableSize buf.length
    let nodeBytesLeft := b.blockSize - b.lastNodeBytesUsed
    let (memory, lastNode, nodePos) ←
      b.memory.writeLoop b.blockSize (some b.lastNode) b.lastNodeBytesUsed nodeBytesLeft buf
    return { b with memory, lastNode, lastNodeBytesUsed := nodePos }

def clear (b : LinkedByteArray) : Option LinkedByteArray := do
  let node := b.memory.next b.firstNode
  let memory ← { b.memory with next := update b.memory.next b.firstNode none }.freeLoop node
  return { b with
    memory
    currentNode := some b.firstNode
    currNodeIndex := 0
    lastNode := b.firstNode
    lastNodeBytesUsed := 0
    currNodePosition := 0
    nodeCount := 1 }

def getTotalBytes (b : LinkedByteArray) : Nat := (b.nodeCount - 1) * b.blockSize + b.lastNodeBytesUsed

/-- The calls that write. -/
inductive Call
  | write (buf : List Byte)
  | clear

def call (b : LinkedByteArray) : Call → Option LinkedByteArray
  | .write buf => b.write buf
  | .clear => b.clear

def run (b : LinkedByteArray) (calls : List Call) : Option LinkedByteArray := calls.foldlM call b

/-- What is stored after a call, if it was `bytes` before. -/
def Call.stores (bytes : List Byte) : Call → List Byte
  | .write buf => bytes ++ buf
  | .clear => []

/-- The bytes written since the last `clear`. -/
def written (calls : List Call) : List Byte := calls.foldl Call.stores []

end LinkedByteArray

/-! ## The loops -/

namespace NodeMemory

variable {m : NodeMemory} {p : Option Address} {nodes : List Address}

theorem freeLoop_eq (hseg : Leads m.next p nodes none) (hlive : ∀ c ∈ nodes, c ∈ m.live) :
    m.freeLoop p = some { m with live := m.live.diff nodes } := by
  induction nodes generalizing m p with
  | nil =>
    obtain rfl : p = none := hseg
    rw [freeLoop]
    rfl
  | cons a rest ih =>
    have hnodup := List.nodup_cons.mp hseg.nodup
    obtain ⟨rfl, hrest⟩ := hseg
    have hlive' : ∀ c ∈ rest, c ∈ m.live.erase a := fun c hc =>
      (List.mem_erase_of_ne (ne_of_mem_of_not_mem hc hnodup.1)).mpr (hlive c (List.mem_cons_of_mem _ hc))
    rw [freeLoop, if_pos (hlive a List.mem_cons_self), ih (m := { m with live := m.live.erase a }) hrest hlive',
      List.diff_cons]

/-- The loop along the pointers does what the loop along the list of blocks does. -/
theorem writeLoop_eq (B : ℕ+) (hseg : Leads m.next p nodes none) (hlive : ∀ c ∈ nodes, c ∈ m.live)
    {nodePos nodeBytesLeft : Nat} {buf : List Byte} {chain : List (List Byte)} {moved nodePos' : Nat}
    (hfirst : ∀ c ∈ nodes.head?, nodePos + min nodeBytesLeft buf.length ≤ m.size c)
    (hothers : ∀ c ∈ nodes.tail, m.size c = B)
    (h : ByteArray.writeLoop B (nodes.map m.data) nodePos nodeBytesLeft buf = some (chain, moved, nodePos')) :
    ∃ data lastNode, m.writeLoop B p nodePos nodeBytesLeft buf = some ({ m with data }, lastNode, nodePos') ∧
      nodes[moved]? = some lastNode ∧ nodes.map data = chain ∧ ∀ c ∉ nodes, data c = m.data c := by
  induction nodes generalizing m p nodePos nodeBytesLeft buf chain moved with
  | nil => cases h
  | cons node rest ih =>
    have hnode : node ∉ rest := (List.nodup_cons.mp hseg.nodup).1
    obtain ⟨rfl, hrest⟩ := hseg
    have hkeep : ∀ block, ∀ c ∈ rest, update m.data node block c = m.data c :=
      fun _ c hc => Function.update_of_ne (ne_of_mem_of_not_mem hc hnode) ..
    rw [List.map_cons, ByteArray.writeLoop] at h
    have hin : ¬ (node ∉ m.live ∨ nodePos + min nodeBytesLeft buf.length > m.size node) :=
      not_or_intro (not_not_intro (hlive node List.mem_cons_self)) (Nat.not_lt.mpr (hfirst node rfl))
    rw [writeLoop, if_neg hin]
    by_cases hfit : nodeBytesLeft ≥ buf.length
    · rw [if_pos hfit] at h
      cases h
      refine ⟨_, node, if_pos hfit, rfl, ?_, fun c hc => Function.update_of_ne (List.ne_of_not_mem_cons hc) ..⟩
      rw [List.map_cons, Function.update_self, List.map_congr_left (hkeep _)]
    · rw [if_neg hfit] at h
      obtain ⟨⟨chain', moved', last⟩, hloop, h⟩ := Option.bind_eq_some_iff.mp h
      cases h
      have hmap := List.map_congr_left (hkeep (overwrite (m.data node) nodePos (buf.take nodeBytesLeft)))
      rw [← hmap] at hloop
      have hnext : ∀ c ∈ rest.head?, 0 + min (B : Nat) (buf.drop nodeBytesLeft).length ≤ m.size c := by
        intro c hc
        rw [hothers c (List.mem_of_mem_head? hc), Nat.zero_add]
        exact Nat.min_le_left _ _
      obtain ⟨data, lastNode, heq, hlast, hchain, hother⟩ :=
        ih (m := { m with data := update m.data node (overwrite (m.data node) nodePos (buf.take nodeBytesLeft)) })
          hrest (fun c hc => hlive c (List.mem_cons_of_mem _ hc)) hnext
          (fun c hc => hothers c (List.mem_of_mem_tail hc)) hloop
      refine ⟨data, lastNode, ?_, hlast, ?_, fun c hc => ?_⟩
      · rw [if_neg hfit]
        exact heq
      · rw [List.map_cons, hchain, hother node hnode]
        exact congrArg (· :: chain') (Function.update_self ..)
      · rw [hother c fun h => hc (List.mem_cons_of_mem _ h)]
        exact Function.update_of_ne (List.ne_of_not_mem_cons hc) ..

end NodeMemory

/-! ## The list of blocks in memory -/

namespace LinkedByteArray

/-- `nodes` are the addresses of the blocks of `s`, in the order of the chain. -/
structure Represents (b : LinkedByteArray) (s : ByteArray) (nodes : List Address) : Prop where
  leads : Leads b.memory.next (some b.firstNode) nodes none
  live : b.memory.live.Perm nodes
  blocks : s.nodes = nodes.map b.memory.data
  sizes : ∀ i a, nodes[i]? = some a → b.memory.size a = s.nodeSize i
  last : nodes[s.lastNode]? = some b.lastNode
  cursor : Option.Rel (fun i a => nodes[i]? = some a) s.currentNode b.currentNode
  blockSize : s.blockSize = b.blockSize
  nodeCount : s.nodeCount = b.nodeCount
  currNodeIndex : s.currNodeIndex = b.currNodeIndex
  currNodePosition : s.currNodePosition = b.currNodePosition
  lastNodeBytesUsed : s.lastNodeBytesUsed = b.lastNodeBytesUsed

/-- The loop of `ensureWritableSize` links nodes behind the last one. -/
theorem linkNodes_eq {l : List Address} {curr : Address} (n : Nat) {b : LinkedByteArray}
    (hseg : Leads b.memory.next (some b.firstNode) (l ++ [curr]) none) (hlive : b.memory.live.Perm (l ++ [curr])) :
    ∃ memory fresh, linkNodes n b curr = some { b with memory, nodeCount := b.nodeCount + n } ∧
      Leads memory.next (some b.firstNode) (l ++ curr :: fresh) none ∧ memory.live.Perm (l ++ curr :: fresh) ∧
      fresh.map memory.data = (List.range n).map (fun k =>
        ByteArray.allocateNode b.malloc.contents b.blockSize (b.memory.mallocs + k)) ∧
      (∀ c ∈ fresh, memory.size c = b.blockSize) ∧
      ∀ c ∈ l ++ [curr], memory.data c = b.memory.data c ∧ memory.size c = b.memory.size c := by
  induction n generalizing b l curr with
  | zero => exact ⟨b.memory, [], rfl, hseg, hlive, rfl, nofun, fun _ _ => ⟨rfl, rfl⟩⟩
  | succ n ih =>
    -- the node of this turn
    generalize htmp : b.malloc.address b.memory.mallocs b.memory.live = tmp
    have hfresh : tmp ∉ b.memory.live := htmp ▸ b.malloc.fresh _ _
    have hnew : tmp ∉ l ++ [curr] := fun h => hfresh (hlive.mem_iff.mpr h)
    have hcurr : curr ∈ tmp :: b.memory.live :=
      List.mem_cons_of_mem _ (hlive.mem_iff.mpr (List.mem_append_right _ List.mem_cons_self))
    generalize hblock : ByteArray.allocateNode b.malloc.contents b.blockSize b.memory.mallocs = block
    let linked : NodeMemory :=
      { next := update (update b.memory.next tmp none) curr (some tmp)
        size := update b.memory.size tmp b.blockSize
        data := update b.memory.data tmp block
        live := tmp :: b.memory.live
        mallocs := b.memory.mallocs + 1 }
    have hstep : linkNodes (n + 1) b curr =
        linkNodes n { b with memory := linked, nodeCount := b.nodeCount + 1 } tmp := by
      rw [linkNodes, allocateNode, NodeMemory.allocate, htmp, hblock]
      dsimp only
      rw [NodeMemory.link, if_pos hcurr, Option.bind_some]
    have hseg' : Leads linked.next (some b.firstNode) ((l ++ [curr]) ++ [tmp]) none := by
      rw [List.append_assoc]
      exact hseg.link hnew
    have hlive' : linked.live.Perm ((l ++ [curr]) ++ [tmp]) :=
      (hlive.cons tmp).trans (List.perm_append_singleton tmp _).symm
    obtain ⟨memory, fresh, heq, hchain, hperm, hdata, hsizes, hkeep⟩ :=
      ih (b := { b with memory := linked, nodeCount := b.nodeCount + 1 }) hseg' hlive'
    rw [List.append_assoc, List.singleton_append] at hchain hperm
    obtain ⟨hdata_tmp, hsize_tmp⟩ := hkeep tmp (List.mem_append_right _ List.mem_cons_self)
    refine ⟨memory, tmp :: fresh, ?_, hchain, hperm, ?_, ?_, fun c hc => ?_⟩
    · rw [hstep, heq]
      congr 2
      exact Nat.add_right_comm ..
    · have hdata_tmp : memory.data tmp = block := hdata_tmp.trans (Function.update_self ..)
      rw [List.map_cons, hdata_tmp, hdata, List.range_succ_eq_map, List.map_cons, List.map_map]
      refine congrArg₂ _ hblock.symm (List.map_congr_left fun k _ => ?_)
      exact congrArg _ (Nat.add_right_comm ..)
    · exact List.forall_mem_cons.mpr ⟨hsize_tmp.trans (Function.update_self ..), hsizes⟩
    · have hne := ne_of_mem_of_not_mem hc hnew
      obtain ⟨hdata_c, hsize_c⟩ := hkeep c (List.mem_append_left _ hc)
      exact ⟨hdata_c.trans (Function.update_of_ne hne ..), hsize_c.trans (Function.update_of_ne hne ..)⟩

section

variable {b : LinkedByteArray} {s : ByteArray} {nodes : List Address} {ws : List Byte}

/-- The cursor does not notice what is linked behind the chain. -/
theorem cursor_append {i : Option Nat} {a : Option Address} (fresh : List Address)
    (h : Option.Rel (fun i a => nodes[i]? = some a) i a) :
    Option.Rel (fun i a => (nodes ++ fresh)[i]? = some a) i a := by
  cases h with
  | none => exact .none
  | some h => exact .some (List.getElem?_append_left (List.getElem?_eq_some_iff.mp h).1 ▸ h)

/-- `lastNode_` is the last node of the chain. -/
theorem Represents.exists_front (h : Represents b s nodes) (hs : s.Stored ws) :
    ∃ front, nodes = front ++ [b.lastNode] ∧ front.length = s.lastNode := by
  have hlen : nodes.length = s.lastNode + 1 := by
    rw [← hs.length_nodes, h.blocks, List.length_map]
  obtain ⟨hlt, hget⟩ := List.getElem?_eq_some_iff.mp h.last
  refine ⟨nodes.take s.lastNode, ?_, by rw [List.length_take]; omega⟩
  rw [← hget, List.take_concat_get', ← hlen, List.take_length]

/-- The blocks are those that `malloc` finds. -/
theorem ensureWritableSize_represents (h : Represents b s nodes) (hs : s.Stored ws) (size : Nat) :
    ∃ heap b' nodes', b.ensureWritableSize size = some b' ∧
      Represents b' ({ s with heap }.ensureWritableSize size) nodes' := by
  obtain ⟨front, rfl, hfront⟩ := h.exists_front hs
  refine ⟨fun k => b.malloc.contents (b.memory.mallocs + (k - s.nodeCount)), ?_⟩
  rw [LinkedByteArray.ensureWritableSize, ByteArray.ensureWritableSize]
  dsimp only
  rw [← h.blockSize, ← h.lastNodeBytesUsed]
  by_cases hfit : size ≤ s.blockSize - s.lastNodeBytesUsed
  · rw [if_pos hfit, if_pos hfit]
    exact ⟨b, front ++ [b.lastNode], rfl, h.leads, h.live, h.blocks, h.sizes, h.last, h.cursor, h.blockSize,
      h.nodeCount, h.currNodeIndex, h.currNodePosition, h.lastNodeBytesUsed⟩
  · rw [if_neg hfit, if_neg hfit]
    generalize hk : (if (size - (s.blockSize - s.lastNodeBytesUsed)) % s.blockSize ≠ 0 then
      (size - (s.blockSize - s.lastNodeBytesUsed)) / s.blockSize + 1
      else (size - (s.blockSize - s.lastNodeBytesUsed)) / s.blockSize) = k
    obtain ⟨memory, fresh, heq, hchain, hperm, hdata, hsizes, hkeep⟩ := linkNodes_eq k h.leads h.live
    have hall : s.nodes.take (s.lastNode + 1) = (front ++ [b.lastNode]).map memory.data := by
      rw [List.take_of_length_le (Nat.le_of_eq hs.length_nodes), h.blocks]
      exact (List.map_congr_left fun c hc => (hkeep c hc).1).symm
    refine ⟨_, front ++ b.lastNode :: fresh, heq, hchain, hperm, ?_, ?_, ?_, ?_, h.blockSize, ?_, h.currNodeIndex,
      h.currNodePosition, h.lastNodeBytesUsed⟩
    · rw [List.append_cons, List.map_append, hdata, ← hall, ← h.blockSize]
      refine congrArg _ (List.map_congr_left fun j _ => ?_)
      rw [ByteArray.allocateNode, ByteArray.allocateNode, Nat.add_sub_cancel_left]
    · rw [List.append_cons]
      intro i a ha
      show memory.size a = s.nodeSize i
      by_cases hi : i < (front ++ [b.lastNode]).length
      · rw [List.getElem?_append_left hi] at ha
        exact ((hkeep a (List.mem_of_getElem? ha)).2).trans (h.sizes i a ha)
      · -- the new nodes have a block
        rw [List.getElem?_append_right (Nat.not_lt.mp hi)] at ha
        rw [List.length_append, List.length_singleton] at hi
        rw [hsizes a (List.mem_of_getElem? ha), ByteArray.nodeSize, if_neg (by omega), h.blockSize]
    · rw [List.append_cons]
      exact (List.getElem?_append_left (List.getElem?_eq_some_iff.mp h.last).1).trans h.last
    · rw [List.append_cons]
      exact cursor_append fresh h.cursor
    · exact congrArg (· + k) h.nodeCount

/-- What `lastNode_` points to, with the chain from there on. -/
theorem Represents.last_node (h : Represents b s nodes) :
    ∃ rest, nodes.drop s.lastNode = b.lastNode :: rest ∧
      Leads b.memory.next (some b.lastNode) (b.lastNode :: rest) none ∧
      (∀ c ∈ b.lastNode :: rest, c ∈ b.memory.live) ∧ b.memory.size b.lastNode = s.nodeSize s.lastNode ∧
      ∀ c ∈ rest, b.memory.size c = b.blockSize := by
  obtain ⟨hlt, hget⟩ := List.getElem?_eq_some_iff.mp h.last
  have hdrop : nodes.drop s.lastNode = b.lastNode :: nodes.drop (s.lastNode + 1) := by
    rw [List.drop_eq_getElem_cons hlt, hget]
  obtain ⟨p, -, hback⟩ := Leads.append_iff.mp ((List.take_append_drop s.lastNode nodes).symm ▸ h.leads)
  rw [hdrop] at hback
  obtain rfl : p = some b.lastNode := hback.1
  refine ⟨nodes.drop (s.lastNode + 1), hdrop, hback, fun c hc => ?_, h.sizes _ _ h.last, fun c hc => ?_⟩
  · rw [← hdrop] at hc
    exact h.live.mem_iff.mpr (List.mem_of_mem_drop hc)
  · -- these are not the first node
    obtain ⟨j, hj⟩ := List.getElem?_of_mem hc
    rw [List.getElem?_drop] at hj
    rw [h.sizes _ c hj, ByteArray.nodeSize, if_neg (by omega), h.blockSize]

/-- **A write does what it does to the list of blocks**, if the first node has room. -/
theorem write_represents (h : Represents b s nodes) (hs : s.Stored ws) (buf : List Byte)
    (hroom : min s.blockSize (ws ++ buf).length ≤ s.firstSize) :
    ∃ heap b' s' nodes', b.write buf = some b' ∧ { s with heap }.write buf = some s' ∧ Represents b' s' nodes' ∧
      s'.Stored (ws ++ buf) ∧ s'.blockSize = s.blockSize ∧ s'.firstSize = s.firstSize := by
  by_cases h0 : buf.length = 0
  · obtain rfl := List.eq_nil_of_length_eq_zero h0
    rw [List.append_nil]
    exact ⟨s.heap, b, s, nodes, if_pos h0, if_pos h0, h, hs, rfl, rfl⟩
  obtain ⟨heap, b₁, nodes', hfits, h₁⟩ := ensureWritableSize_represents h hs buf.length
  have hheap : { s with heap }.Stored ws := hs.with_heap heap
  obtain ⟨s', hwrite, hstored, hsize', hfirst', -⟩ := ByteArray.write_stored hheap buf hroom
  generalize hs₁ : { s with heap }.ensureWritableSize buf.length = s₁ at h₁
  have hloops := hwrite
  rw [ByteArray.write, if_neg h0, hs₁] at hloops
  obtain ⟨_, hguard, hloops⟩ := Option.bind_eq_some_iff.mp hloops
  obtain ⟨⟨chain, moved, nodePos⟩, hloop, heq⟩ := Option.bind_eq_some_iff.mp hloops
  obtain rfl := Option.some.inj heq
  have hbytes := (Option.guard_eq_some' _).mp hguard s₁.lastNode rfl
  rw [h₁.blockSize, h₁.lastNodeBytesUsed, h₁.blocks, ← List.map_drop] at hloop
  rw [h₁.blockSize, h₁.lastNodeBytesUsed] at hbytes
  -- the chain from `lastNode_` on
  obtain ⟨rest, hdrop, hback, hlive, hsize, hsizes⟩ := h₁.last_node
  have hsplit := List.take_append_drop s₁.lastNode nodes'
  have hnodup := h₁.leads.nodup
  rw [hdrop] at hloop
  obtain ⟨data, lastNode, hlinked, hlast, hchain, hkeep⟩ := NodeMemory.writeLoop_eq b₁.blockSize hback hlive
    (fun c hc => by rwa [← Option.some.inj hc, hsize]) hsizes hloop
  rw [← hdrop] at hlast hchain hkeep
  have hcall : b.write buf = some { b₁ with
      memory := { b₁.memory with data }
      lastNode
      lastNodeBytesUsed := nodePos } := by
    rw [write, if_neg h0, hfits, Option.bind_eq_bind, Option.bind_some]
    dsimp only
    rw [hlinked]
    rfl
  refine ⟨heap, _, _, nodes', hcall, hwrite, ⟨h₁.leads, h₁.live, ?_, h₁.sizes, ?_, h₁.cursor, h₁.blockSize,
    h₁.nodeCount, h₁.currNodeIndex, h₁.currNodePosition, rfl⟩, hstored, hsize', hfirst'⟩
  · have htake : (nodes'.take s₁.lastNode).map data = (nodes'.take s₁.lastNode).map b₁.memory.data :=
      List.map_congr_left fun c hc => hkeep c (List.disjoint_take_drop hnodup (Nat.le_refl _) hc)
    show s₁.nodes.take s₁.lastNode ++ chain = nodes'.map data
    rw [← hsplit, List.map_append, htake, hchain, List.map_take, ← h₁.blocks]
  · show nodes'[s₁.lastNode + moved]? = some lastNode
    rw [← List.getElem?_drop]
    exact hlast

/-- A write for which the first node has no room touches what is behind its memory. -/
theorem write_eq_none (h : Represents b s nodes) (hs : s.Stored ws) {buf : List Byte}
    (hroom : ¬ min s.blockSize (ws ++ buf).length ≤ s.firstSize) : b.write buf = none := by
  have h0 : buf.length ≠ 0 := by
    intro h0
    rw [List.length_append, h0, Nat.add_zero] at hroom
    exact hroom hs.room
  obtain ⟨heap, b₁, nodes', hfits, h₁⟩ := ensureWritableSize_represents h hs buf.length
  obtain ⟨fresh, -, hens, -⟩ := ByteArray.ensureWritableSize_eq (hs.with_heap heap) (Nat.pos_of_ne_zero h0)
  rw [hens] at h₁
  obtain ⟨-, -, -, -, hsize, -⟩ := h₁.last_node
  rw [← hs.hasBytes_iff] at hroom
  have hover : b₁.lastNodeBytesUsed + min (b₁.blockSize - b₁.lastNodeBytesUsed) buf.length >
      b₁.memory.size b₁.lastNode := by
    rw [hsize, ← h₁.blockSize, ← h₁.lastNodeBytesUsed]
    refine Nat.not_le.mp fun hle => hroom fun k hk => ?_
    rw [← Option.some.inj hk]
    exact hle
  rw [write, if_neg h0, hfits, Option.bind_eq_bind, Option.bind_some]
  dsimp only
  rw [NodeMemory.writeLoop, if_pos (.inr hover)]
  rfl

/-- **`clear` keeps the first node and frees the others.** -/
theorem clear_represents (h : Represents b s nodes) :
    ∃ b', b.clear = some b' ∧ Represents b' s.clear (nodes.take 1) := by
  have hseg := h.leads
  have hlive := h.live
  cases nodes with
  | nil => cases hseg
  | cons a rest =>
    obtain ⟨ha, hrest⟩ := hseg
    obtain rfl : b.firstNode = a := Option.some.inj ha
    have hnodup := List.nodup_cons.mp h.leads.nodup
    generalize hnext : update b.memory.next b.firstNode none = next
    have hrest' : Leads next (b.memory.next b.firstNode) rest none := hnext ▸ hrest.congr fun c hc =>
      Function.update_of_ne (ne_of_mem_of_not_mem hc hnodup.1) ..
    have hfree : ({ b.memory with next } : NodeMemory).freeLoop (b.memory.next b.firstNode) =
        some { b.memory with next, live := b.memory.live.diff rest } :=
      NodeMemory.freeLoop_eq hrest' fun c hc => hlive.mem_iff.mpr (List.mem_cons_of_mem _ hc)
    have hleft : (b.memory.live.diff rest).Perm [b.firstNode] := by
      refine (hlive.diff_right rest).trans ?_
      have hnone : rest.diff rest = [] := List.eq_nil_iff_forall_not_mem.mpr fun c hc => by
        obtain ⟨hin, hout⟩ := hnodup.2.mem_sdiff_iff.mp hc
        exact hout hin
      rw [List.cons_diff_of_not_mem hnodup.1, hnone]
    have hcall : b.clear = some { b with
        memory := { b.memory with next, live := b.memory.live.diff rest }
        currentNode := some b.firstNode
        currNodeIndex := 0
        lastNode := b.firstNode
        lastNodeBytesUsed := 0
        currNodePosition := 0
        nodeCount := 1 } := by
      rw [clear, hnext, hfree]
      rfl
    refine ⟨_, hcall, ?_, hleft, ?_, ?_, rfl, .some rfl, h.blockSize, rfl, rfl, rfl, rfl⟩
    · exact hnext ▸ h.leads.cut (l := [])
    · show s.nodes.take 1 = [b.memory.data b.firstNode]
      rw [h.blocks]
      rfl
    · intro i a ha
      cases i with
      | zero => exact h.sizes 0 a ha
      | succ i => cases ha

theorem new_represents (malloc : Malloc) (firstSize : Nat) (blockSize : ℕ+) :
    Represents (new malloc firstSize blockSize) (ByteArray.new malloc.contents firstSize blockSize)
      [malloc.address 0 []] := by
  refine ⟨⟨rfl, ?_⟩, .rfl, ?_, ?_, rfl, .some rfl, rfl, rfl, rfl, rfl, rfl⟩
  · exact Function.update_self ..
  · show [ByteArray.allocateNode malloc.contents blockSize 0] = [update (fun _ => []) _ _ _]
    rw [Function.update_self]
  · intro i a ha
    cases i with
    | zero =>
      obtain rfl := Option.some.inj ha
      exact Function.update_self ..
    | succ i => cases ha

/-! ## Runs -/

theorem call_represents (h : Represents b s nodes) (hs : s.Stored ws) (c : Call)
    (hroom : min s.blockSize (c.stores ws).length ≤ s.firstSize) :
    ∃ b' s' nodes', b.call c = some b' ∧ Represents b' s' nodes' ∧ s'.Stored (c.stores ws) ∧
      s'.blockSize = s.blockSize ∧ s'.firstSize = s.firstSize := by
  cases c with
  | write buf =>
    obtain ⟨-, b', s', nodes', hcall, -, hrep, hstored⟩ := write_represents h hs buf hroom
    exact ⟨b', s', nodes', hcall, hrep, hstored⟩
  | clear =>
    obtain ⟨b', hcall, hrep⟩ := clear_represents h
    exact ⟨b', s.clear, nodes.take 1, hcall, hrep, ByteArray.clear_stored hs, rfl, rfl⟩

theorem call_eq_none (h : Represents b s nodes) (hs : s.Stored ws) {c : Call}
    (hroom : ¬ min s.blockSize (c.stores ws).length ≤ s.firstSize) : b.call c = none := by
  cases c with
  | write buf => exact write_eq_none h hs hroom
  | clear => exact absurd (Nat.le_trans (Nat.min_le_right _ _) (Nat.zero_le _)) hroom

/-- After any of the calls, the first node has room for what is stored, or for a block of it. -/
def HasRoom (first B : Nat) (bytes : List Byte) (calls : List Call) : Prop :=
  ∀ p, p <+: calls → min B (p.foldl Call.stores bytes).length ≤ first

theorem HasRoom.cons_iff {first B : Nat} {bytes : List Byte} {c : Call} {calls : List Call} :
    HasRoom first B bytes (c :: calls) ↔ min B bytes.length ≤ first ∧ HasRoom first B (c.stores bytes) calls := by
  constructor
  · exact fun h => ⟨h [] List.nil_prefix, fun p hp => h (c :: p) (List.cons_prefix_cons.mpr ⟨rfl, hp⟩)⟩
  · rintro ⟨hnil, h⟩ p hp
    cases p with
    | nil => exact hnil
    | cons c' p =>
      obtain ⟨rfl, hpre⟩ := List.cons_prefix_cons.mp hp
      exact h p hpre

theorem run_represents (h : Represents b s nodes) (hs : s.Stored ws) (calls : List Call)
    (hroom : HasRoom s.firstSize s.blockSize ws calls) :
    ∃ b' s' nodes', b.run calls = some b' ∧ Represents b' s' nodes' ∧ s'.Stored (calls.foldl Call.stores ws) := by
  induction calls generalizing b s nodes ws with
  | nil => exact ⟨b, s, nodes, rfl, h, hs⟩
  | cons c calls ih =>
    obtain ⟨-, hrooms⟩ := HasRoom.cons_iff.mp hroom
    obtain ⟨b₁, s₁, nodes₁, hcall, h₁, hs₁, hsize, hfirst⟩ := call_represents h hs c (hrooms [] List.nil_prefix)
    rw [← hsize, ← hfirst] at hrooms
    obtain ⟨b', s', nodes', hrun, h', hs'⟩ := ih h₁ hs₁ hrooms
    refine ⟨b', s', nodes', ?_, h', hs'⟩
    rw [run, List.foldlM_cons, hcall]
    exact hrun

theorem hasRoom_of_run (h : Represents b s nodes) (hs : s.Stored ws) {calls : List Call} {b' : LinkedByteArray}
    (hrun : b.run calls = some b') : HasRoom s.firstSize s.blockSize ws calls := by
  induction calls generalizing b s nodes ws with
  | nil =>
    intro p hp
    rw [List.prefix_nil.mp hp]
    exact hs.room
  | cons c calls ih =>
    refine HasRoom.cons_iff.mpr ⟨hs.room, ?_⟩
    obtain ⟨b₁, hcall, hrest⟩ := Option.bind_eq_some_iff.mp (hrun : _ = _)
    by_cases hroom : min s.blockSize (c.stores ws).length ≤ s.firstSize
    · obtain ⟨b₂, s₂, nodes₂, hcall₂, h₂, hs₂, hsize, hfirst⟩ := call_represents h hs c hroom
      obtain rfl : b₁ = b₂ := Option.some.inj (hcall.symm.trans hcall₂)
      rw [← hsize, ← hfirst]
      exact ih h₂ hs₂ hrest
    · rw [call_eq_none h hs hroom] at hcall
      cases hcall

/-- The chain from `firstNode_` consists of the nodes `front` and then `lastNode_`. It holds `bytes`. -/
structure Holds (b : LinkedByteArray) (front : List Address) (bytes : List Byte) : Prop where
  chain : Leads b.memory.next (some b.firstNode) (front ++ [b.lastNode]) none
  next_last : b.memory.next b.lastNode = none
  nodeCount : b.nodeCount = (front ++ [b.lastNode]).length
  /-- Nothing else is allocated. -/
  live : b.memory.live.Perm (front ++ [b.lastNode])
  blocks : ∀ a ∈ front ++ [b.lastNode], (b.memory.data a).length = b.blockSize
  used_le : b.lastNodeBytesUsed ≤ b.blockSize
  /-- All of it is in memory. -/
  sizes : (∀ a ∈ front, b.blockSize ≤ b.memory.size a) ∧ b.lastNodeBytesUsed ≤ b.memory.size b.lastNode
  /-- The blocks of `front` are full. -/
  contents : front.flatMap b.memory.data ++ (b.memory.data b.lastNode).take b.lastNodeBytesUsed = bytes
  total : b.getTotalBytes = bytes.length

theorem Represents.holds (h : Represents b s nodes) (hs : s.Stored ws) : ∃ front, Holds b front ws := by
  obtain ⟨front, rfl, hfront⟩ := h.exists_front hs
  have hblocks : ∀ a ∈ front ++ [b.lastNode], (b.memory.data a).length = b.blockSize := fun a ha =>
    (hs.blocks _ (h.blocks ▸ List.mem_map_of_mem ha)).trans h.blockSize
  have hfull : (front.flatMap b.memory.data).length = front.length * b.blockSize := by
    rw [List.length_flatMap, List.map_congr_left fun a ha => hblocks a (List.mem_append_left _ ha), List.map_const',
      List.sum_replicate_nat]
  have hlength : ws.length = (front.flatMap b.memory.data).length + b.lastNodeBytesUsed := by
    rw [hs.length_eq, hfull, hfront, h.blockSize, h.lastNodeBytesUsed]
  have hcount : b.nodeCount = (front ++ [b.lastNode]).length := by
    rw [← h.nodeCount, ← hs.count, h.blocks, List.length_map]
  have hroom := hs.room
  rw [hs.length_eq, h.blockSize, h.lastNodeBytesUsed] at hroom
  have hused : b.lastNodeBytesUsed ≤ b.blockSize := by
    rw [← h.lastNodeBytesUsed, ← h.blockSize]
    exact hs.used_le
  refine ⟨front, h.leads, h.leads.next_last, hcount, h.live, hblocks, hused, ⟨fun a ha => ?_, ?_⟩, ?_, ?_⟩
  · -- a node in front of the last one is full
    obtain ⟨i, hi⟩ := List.getElem?_of_mem ha
    have hlt := (List.getElem?_eq_some_iff.mp hi).1
    rw [h.sizes i a (by rwa [List.getElem?_append_left hlt]), ByteArray.nodeSize, h.blockSize]
    split
    · have hle : (b.blockSize : Nat) ≤ s.lastNode * b.blockSize := Nat.le_mul_of_pos_left _ (by omega)
      omega
    · exact Nat.le_refl _
  · rw [h.sizes _ _ h.last, ByteArray.nodeSize, h.blockSize]
    split
    · next h0 =>
      rw [h0, Nat.zero_mul, Nat.zero_add] at hroom
      omega
    · exact hused
  · have hcontents := hs.contents
    have hlast : b.lastNodeBytesUsed ≤ (b.memory.data b.lastNode).length := by
      rw [hblocks _ (List.mem_append_right _ List.mem_cons_self), ← h.lastNodeBytesUsed, ← h.blockSize]
      exact hs.used_le
    rw [h.blocks, List.map_append, List.flatten_append, hlength, ← List.flatMap_def,
      List.take_length_add_append] at hcontents
    simpa using hcontents
  · rw [getTotalBytes, hcount, List.length_append, List.length_singleton, Nat.add_sub_cancel, hlength, hfull]

/-- The calls on a fresh array have a result, and leave a chain that holds what was written. -/
def HoldsWritten (malloc : Malloc) (first : Nat) (B : ℕ+) (calls : List Call) : Prop :=
  ∃ b front, (new malloc first B).run calls = some b ∧ Holds b front (written calls)

/-- **After any writes and `clear`s, the chain holds what was written**, if and only if the first node had room for
it, or for a block of it, all the time. -/
theorem holdsWritten_iff (malloc : Malloc) (first : Nat) (B : ℕ+) (calls : List Call) :
    HoldsWritten malloc first B calls ↔ ∀ p, p <+: calls → min (B : Nat) (written p).length ≤ first := by
  have hs : (ByteArray.new malloc.contents first B).Stored [] := ByteArray.stored_new _ first B.pos
  have hnew := new_represents malloc first B
  constructor
  · rintro ⟨b, front, hrun, -⟩
    exact hasRoom_of_run hnew hs hrun
  · intro hroom
    obtain ⟨b, s, nodes, hrun, h, hs'⟩ := run_represents hnew hs calls hroom
    obtain ⟨front, hholds⟩ := h.holds hs'
    exact ⟨b, front, hrun, hholds⟩

/-- The first node has no room for a byte. -/
theorem not_holdsWritten : ¬ ∀ (malloc : Malloc) (first : Nat) (B : ℕ+) (calls : List Call),
    HoldsWritten malloc first B calls := by
  intro h
  obtain ⟨b, front, hrun, -⟩ := h default 0 8 [.write [7]]
  have hs : (ByteArray.new (default : Malloc).contents 0 (8 : ℕ+)).Stored [] := ByteArray.stored_new _ 0 (by decide)
  have hroom := hasRoom_of_run (new_represents default 0 8) hs hrun [.write [7]] (List.prefix_refl _)
  revert hroom
  decide

end

end LinkedByteArray

end Nemo
