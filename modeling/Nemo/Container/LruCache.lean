import Nemo.Container.List

/-!
# `LruCache`

The nodes are numbers, `header_` is 0, and their `next` and `prev` fields are the links. The value
of a node is a pair of an iterator of the hash map and the cached value; a number without a value
is memory where no node is constructed, and reading it has no result (`none`). A map entry has an
identity of its own, which rehashing does not change, and an iterator is that identity.

The four `put` have one body. They differ in how the two arguments are passed on, which the cache
does not see, and in which end of the list the new node is linked at.
-/

namespace Nemo

open Infra

/-- An entry of `map_`. -/
structure Entry (K : Type) where
  id : Nat
  key : K
  node : Nat

structure LruCache (K V : Type) where
  limit : Nat
  links : Links Nat
  value : Nat → Option (Nat × V)
  map : List (Entry K)
  /-- The next node and the next map entry to be allocated. -/
  nextNode : Nat
  nextEntry : Nat

namespace LruCache

def header : Nat := 0

variable {K V : Type} [DecidableEq K]

def new (K V : Type) (limit : Nat) : LruCache K V where
  limit := limit
  -- `allocateNodeBase` links the header with itself
  links := { next := fun _ => header, prev := fun _ => header }
  value := fun _ => none
  map := []
  nextNode := header + 1
  nextEntry := 0

def size (c : LruCache K V) : Nat := c.map.length

def moveToHeader (c : LruCache K V) (node : Nat) : LruCache K V :=
  { c with links := linkAfter (unlinkSelfUnckecked c.links node) header node }

def find (c : LruCache K V) (key : K) : Option (Entry K) := c.map.find? (·.key = key)

/-- `get`: the value that it writes to `v`, if it returns `true`. -/
def get (c : LruCache K V) (key : K) : Option (Option V × LruCache K V) :=
  match c.find key with
  | some e => do
    let (_, v) ← c.value e.node
    return (some v, c.moveToHeader e.node)
  | none => some (none, c)

/-- The node before the header goes, with the map entry of its iterator. -/
def evict (c : LruCache K V) : Option (LruCache K V) := do
  let (node, links) ← unlinkBefore c.links header
  let (iter, _) ← c.value node
  return { c with
    links := links
    map := c.map.filter (·.id ≠ iter)
    value := Function.update c.value node none }

/-- Before an insertion a full cache evicts one node. -/
def makeRoom (c : LruCache K V) : Option (LruCache K V) :=
  if c.size ≥ c.limit then c.evict else some c

/-- `map_.emplace`: the entry of the key, which is a new one unless the key is there already. -/
def emplace (c : LruCache K V) (key : K) (node : Nat) : Nat × LruCache K V :=
  match c.find key with
  | some e => (e.id, c)
  | none =>
    (c.nextEntry, { c with
      map := { id := c.nextEntry, key := key, node := node } :: c.map
      nextEntry := c.nextEntry + 1 })

/-- A new node with its map entry; `link` links it with the header. -/
def addNode (link : Links Nat → Nat → Nat → Links Nat) (c : LruCache K V) (key : K) (v : V) :
    LruCache K V :=
  let newNode := c.nextNode
  let c := { c with nextNode := c.nextNode + 1 }
  let (iter, c) := c.emplace key newNode
  { c with
    value := Function.update c.value newNode (some (iter, v))
    links := link c.links header newNode }

/-- The body of the four `put`. -/
def putWith (link : Links Nat → Nat → Nat → Links Nat) (c : LruCache K V) (key : K) (v : V) :
    Option (LruCache K V) :=
  match c.find key with
  | some e => do
    let (iter, _) ← c.value e.node
    let c := { c with value := Function.update c.value e.node (some (iter, v)) }
    return c.moveToHeader e.node
  | none => do
    let c ← c.makeRoom
    return c.addNode link key v

/-- `put(const key_type&, const value_type&)` -/
def putCopyCopy (c : LruCache K V) (key : K) (v : V) : Option (LruCache K V) :=
  c.putWith linkBefore key v

/-- `put(const key_type&, value_type&&)` -/
def putCopyMove (c : LruCache K V) (key : K) (v : V) : Option (LruCache K V) :=
  c.putWith linkBefore key v

/-- `put(key_type&&, const value_type&)` -/
def putMoveCopy (c : LruCache K V) (key : K) (v : V) : Option (LruCache K V) :=
  c.putWith linkBefore key v

/-- `put(key_type&&, value_type&&)` links the new node at the other end. -/
def putMoveMove (c : LruCache K V) (key : K) (v : V) : Option (LruCache K V) :=
  c.putWith linkAfter key v

/-- The loop of `clearWithoutLink`, which walks to the header; `fuel` bounds its steps. -/
def destroyNodes : Nat → LruCache K V → Nat → Option (LruCache K V)
  | 0, c, currNode => if currNode = header then some c else none
  | fuel + 1, c, currNode =>
    if currNode = header then some c
    else do
      let next := c.links.next currNode
      let _ ← c.value currNode
      destroyNodes fuel { c with value := Function.update c.value currNode none } next

def clearWithoutLink (c : LruCache K V) : Option (LruCache K V) :=
  let c := { c with map := [] }
  destroyNodes c.nextNode c (c.links.next header)

def clear (c : LruCache K V) : Option (LruCache K V) := do
  let c ← c.clearWithoutLink
  let links := c.links.setPrev header header
  return { c with links := links.setNext header (links.prev header) }

/-- The four overloads, by how they take the key and the value. -/
inductive Overload
  | copyCopy
  | copyMove
  | moveCopy
  | moveMove
  deriving DecidableEq

def put (c : LruCache K V) : Overload → K → V → Option (LruCache K V)
  | .copyCopy => c.putCopyCopy
  | .copyMove => c.putCopyMove
  | .moveCopy => c.putMoveCopy
  | .moveMove => c.putMoveMove

/-- The calls on a cache. -/
inductive Op (K V : Type)
  | get (key : K)
  | put (overload : Overload) (key : K) (v : V)
  | clear

/-- A call, with what a `get` gives. -/
def step (c : LruCache K V) : Op K V → Option (Option V × LruCache K V)
  | .get key => c.get key
  | .put overload key v => (c.put overload key v).map fun c => (none, c)
  | .clear => c.clear.map fun c => (none, c)

def run (c : LruCache K V) : List (Op K V) → Option (List (Option V) × LruCache K V)
  | [] => some ([], c)
  | op :: ops =>
    (c.step op).bind fun (result, c) =>
      (run c ops).map fun (results, c) => (result :: results, c)

end LruCache

end Nemo
