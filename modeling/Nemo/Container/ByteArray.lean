import Nemo.Infra.Blocks
import Nemo.Infra.Fifo

/-!
# `ByteArray`

The chain of nodes is the list of their data blocks. A pointer to a node is a position in that
list; `currentNode_` can be null, and following it then has no result (`none`).

* the loops of `write` and `read` walk along the chain from `lastNode_` and `currentNode_` on
* `getReadableBytes` is computed from the counters, as in the source

The constructor allocates the first node before `blockSize_` is initialized, as it is declared after
`firstNode_`. So nothing is known of the size that this `malloc` is asked for: `firstSize` is any number,
and touching the first node beyond it has no result either. The other nodes have a block.
-/

namespace Nemo

open Infra

abbrev Byte := UInt8

/-- What `read` throws. -/
structure OutOfRange where
  what : String
  deriving DecidableEq

structure ByteArray where
  blockSize : Nat
  /-- How many bytes of data `malloc` gave the first node. -/
  firstSize : Nat
  /-- The data blocks from `firstNode_` on. Of the first one, the bytes from `firstSize` on are never touched. -/
  nodes : List (List Byte)
  lastNode : Nat
  currentNode : Option Nat
  nodeCount : Nat
  currNodeIndex : Nat
  currNodePosition : Nat
  lastNodeBytesUsed : Nat
  /-- What `malloc` finds in the memory of the `k`th node. -/
  heap : Nat → Nat → Byte

namespace ByteArray

/-- `allocateNode`: the data of the node is not initialized. -/
def allocateNode (heap : Nat → Nat → Byte) (blockSize k : Nat) : List Byte :=
  (List.range blockSize).map (heap k)

/-- The constructor, where the first `malloc` gives `firstSize` bytes of data. -/
def new (heap : Nat → Nat → Byte) (firstSize blockSize : Nat) : ByteArray where
  blockSize := blockSize
  firstSize := firstSize
  nodes := [allocateNode heap blockSize 0]
  lastNode := 0
  currentNode := some 0
  nodeCount := 1
  currNodeIndex := 0
  currNodePosition := 0
  lastNodeBytesUsed := 0
  heap := heap

/-- How many bytes of data the `k`th node has. -/
def nodeSize (b : ByteArray) (k : Nat) : Nat := if k = 0 then b.firstSize else b.blockSize

/-- The node has the `len` bytes from `pos` on. (A null pointer is found out when it is followed.) -/
def HasBytes (b : ByteArray) (node : Option Nat) (pos len : Nat) : Prop :=
  ∀ k ∈ node, pos + len ≤ b.nodeSize k

instance (b : ByteArray) (node : Option Nat) (pos len : Nat) : Decidable (b.HasBytes node pos len) :=
  inferInstanceAs (Decidable (∀ k ∈ node, pos + len ≤ b.nodeSize k))

def ensureWritableSize (b : ByteArray) (size : Nat) : ByteArray :=
  let lastNodeBytesLeft := b.blockSize - b.lastNodeBytesUsed
  if size ≤ lastNodeBytesLeft then b
  else
    let sizeNeeded := size - lastNodeBytesLeft
    let nodesNeeded := sizeNeeded / b.blockSize
    let nodesNeeded := if sizeNeeded % b.blockSize ≠ 0 then nodesNeeded + 1 else nodesNeeded
    let fresh := (List.range nodesNeeded).map fun k =>
      allocateNode b.heap b.blockSize (b.nodeCount + k)
    -- `Link` overwrites the `next` of the last node
    { b with
      nodes := b.nodes.take (b.lastNode + 1) ++ fresh
      nodeCount := b.nodeCount + nodesNeeded }

/--
The loop of `write`, with the chain from `lastNode_` on. Gives the rewritten chain, how many nodes
`lastNode_` moved, and `nodePos`. What is left to write is never empty here.
-/
def writeLoop (blockSize : Nat) :
    List (List Byte) → Nat → Nat → List Byte → Option (List (List Byte) × Nat × Nat)
  | [], _, _, _ => none
  | node :: chain, nodePos, nodeBytesLeft, buf =>
    if nodeBytesLeft ≥ buf.length then
      some (overwrite node nodePos buf :: chain, 0, nodePos + buf.length)
    else do
      let (chain, moved, nodePos') ← writeLoop blockSize chain 0 blockSize (buf.drop nodeBytesLeft)
      return (overwrite node nodePos (buf.take nodeBytesLeft) :: chain, moved + 1, nodePos')

/-- Only the first turn of the loop can be in the first node. -/
def write (b : ByteArray) (buf : List Byte) : Option ByteArray :=
  if buf.length = 0 then some b
  else do
    let b := b.ensureWritableSize buf.length
    let nodeBytesLeft := b.blockSize - b.lastNodeBytesUsed
    guard (b.HasBytes (some b.lastNode) b.lastNodeBytesUsed (min nodeBytesLeft buf.length))
    let (chain, moved, nodePos) ←
      writeLoop b.blockSize (b.nodes.drop b.lastNode) b.lastNodeBytesUsed nodeBytesLeft buf
    return { b with
      nodes := b.nodes.take b.lastNode ++ chain
      lastNode := b.lastNode + moved
      lastNodeBytesUsed := nodePos }

def getReadableBytes (b : ByteArray) : Nat :=
  (b.nodeCount - b.currNodeIndex - 1) * b.blockSize + b.lastNodeBytesUsed

/-- The chain from `currentNode_` on. -/
def chain (b : ByteArray) : List (List Byte) :=
  match b.currentNode with
  | some i => b.nodes.drop i
  | none => []

/-- The pointer to the first node of a chain that ends where the whole chain ends. -/
def pointerTo (b : ByteArray) (chain : List (List Byte)) : Option Nat :=
  if chain.isEmpty then none else some (b.nodes.length - chain.length)

/--
The loop of `read`, with the chain from `currentNode_` on. Gives the bytes, the chain that is left,
and `nodePos`.
-/
def readLoop (blockSize : Nat) :
    List (List Byte) → Nat → Nat → Nat → Option (List Byte × List (List Byte) × Nat)
  | chain, nodePos, _, 0 => some ([], chain, nodePos)
  | [], _, _, _ + 1 => none
  | node :: chain, nodePos, nodeBytesLeft, size + 1 =>
    let size := size + 1
    if nodeBytesLeft > size then
      some (slice node nodePos (nodePos + size), node :: chain, nodePos + size)
    else if nodeBytesLeft = size then
      some (slice node nodePos (nodePos + size), chain, 0)
    else do
      let (bytes, rest) ← readLoop blockSize chain 0 blockSize (size - nodeBytesLeft)
      return (slice node nodePos (nodePos + nodeBytesLeft) ++ bytes, rest)

def read (b : ByteArray) (size : Nat) : Option (Except OutOfRange (List Byte) × ByteArray) :=
  if size > b.getReadableBytes then some (.error { what := "not enough len" }, b)
  else do
    let nodeBytesLeft := b.blockSize - b.currNodePosition
    guard (b.HasBytes b.currentNode b.currNodePosition (min nodeBytesLeft size))
    let (bytes, chain, nodePos) ← readLoop b.blockSize b.chain b.currNodePosition nodeBytesLeft size
    return (.ok bytes,
      { b with currentNode := b.pointerTo chain, currNodePosition := nodePos })

/-- `clear` keeps the first node. -/
def clear (b : ByteArray) : ByteArray :=
  { b with
    nodes := b.nodes.take 1
    currentNode := some 0
    currNodeIndex := 0
    lastNode := 0
    lastNodeBytesUsed := 0
    currNodePosition := 0
    nodeCount := 1 }

/-- A list of calls, with what each `read` gave. `none` once a null node is followed. -/
def run (b : ByteArray) :
    List (Fifo.Op Byte) → Option (List (Except OutOfRange (List Byte)) × ByteArray)
  | [] => some ([], b)
  | .write buf :: ops => (b.write buf).bind fun b => run b ops
  | .read size :: ops =>
    (b.read size).bind fun (result, b) =>
      (run b ops).map fun (results, b) => (result :: results, b)
  | .clear :: ops => run b.clear ops

end ByteArray

end Nemo
