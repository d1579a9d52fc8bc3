import Mathlib.Logic.Function.Basic
import Nemo.Common.CString

/-!
# Messages from the rows of a join

`src/orm/orm.cc` and `MakeMessage` of `include/orm/orm.h`. The columns of a row are read from left to
right, along the elements of the mapper: an id and results, and behind them the columns of a nested
element. `messageTree` has, for each depth, the messages that have been made by their ids, so the
place of a message in it stands for the pointer to it.

What protobuf knows of the message types and how it stores a value are parameters.
-/

namespace Nemo.Orm

open Function (update)
open Http

/-- A `tinyxml2::XMLElement`. -/
inductive Element
  | mk (name : Bytes) (protobufMessage : Option Bytes) (children : List Element)

/-- What ends the process. -/
inductive Fault
  /-- an assertion fails -/
  | assertion
  /-- `element` is null when `element->Name()` is reached -/
  | nullElement
  deriving DecidableEq, Repr

/-- Where the pointer to a message is in the `messageTree`. -/
structure MessagePtr where
  treeIndex : Nat
  id : Int64
  deriving DecidableEq

/-- A message: its type, its fields by their numbers, and the messages in its repeated fields. -/
structure Message (V : Type) where
  type : Bytes
  id : Int64
  fields : Nat → Option V := fun _ => none
  /-- the number of the field, and the message that was added to it -/
  repeated : List (Nat × MessagePtr) := []

/-- The libraries: the types that are known, `r.get<long long>`, and what `ParseField` stores. -/
structure Library (V : Type) where
  known : Bytes → Bool
  getId : V → Int64
  parse : Bytes → Nat → V → Option V

/-- `MessageTree`: a vector of maps. -/
structure MessageTree (V : Type) where
  size : Nat := 0
  maps : Nat → Int64 → Option (Message V) := fun _ _ => none

/-- How an element is handled, by its name. -/
inductive Kind
  | result | association | collection | other
  deriving DecidableEq

/-- The tests of `InitMessage`. -/
def Element.kind : Element → Kind
  | .mk name _ _ =>
    if strncasecmp (ascii "result") name 6 = .eq then .result
    else if strncasecmp (ascii "association") name 11 = .eq then .association
    else if strncasecmp (ascii "collection") name 10 = .eq then .collection
    else .other

def Element.isId : Element → Bool
  | .mk name _ _ => strncasecmp name (ascii "id") 2 == .eq

namespace MessageTree

variable {V : Type} (t : MessageTree V)

/-- The message behind a pointer changes. -/
def modify (p : MessagePtr) (f : Message V → Message V) : MessageTree V :=
  { t with maps := update t.maps p.treeIndex (update (t.maps p.treeIndex) p.id ((t.maps p.treeIndex p.id).map f)) }

/-- `messageTree[treeIndex][id] = newMessage`, after `resize` if there is no such map. -/
def insert (p : MessagePtr) (m : Message V) : MessageTree V where
  size := if p.treeIndex = t.size then p.treeIndex + 1 else t.size
  maps := update t.maps p.treeIndex (update (t.maps p.treeIndex) p.id (some m))

/-- The message of an id, which is made if there is none, and whether it was made. -/
def findOrNew (p : MessagePtr) (type : Bytes) : MessageTree V × Bool :=
  if p.treeIndex = t.size then (t.insert p { type, id := p.id }, true)
  else
    match t.maps p.treeIndex p.id with
    | some _ => (t, false)
    | none => (t.insert p { type, id := p.id }, true)

/-- `ParseField`. -/
def parseField (lib : Library V) (p : MessagePtr) (cell : Option V) (fieldNum : Nat) : MessageTree V :=
  match cell with
  | none => t
  | some v =>
    t.modify p fun m =>
      match lib.parse m.type fieldNum v with
      | none => m
      | some v => { m with fields := update m.fields fieldNum (some v) }

/-- `AddAllocatedMessage`. -/
def addMessage (p : MessagePtr) (fieldNum : Nat) (child : MessagePtr) : MessageTree V :=
  t.modify p fun m => { m with repeated := m.repeated ++ [(fieldNum, child)] }

/-- `if (myPair.second)`. -/
def addIfNew (p : MessagePtr) (fieldNum : Nat) (child : Option MessagePtr) (isNewMessage : Bool) :
    MessageTree V :=
  match child, isNewMessage with
  | some child, true => t.addMessage p fieldNum child
  | _, _ => t

end MessageTree

section

variable {V : Type} (lib : Library V)

mutual

/-- `InnerMakeMessage`, on the columns from `columnNum` on. -/
def innerMakeMessage (cells : List (Option V)) :
    Element → MessageTree V → Nat → Except Fault (MessageTree V × Option MessagePtr × Bool)
  | .mk _ protobufMessage children, t, treeIndex =>
    match cells with
    | some v :: cells =>
      match protobufMessage with
      | none => .error .assertion
      | some type =>
        if lib.known type then
          match children with
          | [] => .error .nullElement
          | idElement :: elements =>
            if idElement.isId then do
              let p : MessagePtr := ⟨treeIndex, lib.getId v⟩
              let (t, isNewMessage) := t.findOrNew p type
              let t ← initMessage cells elements t p 1
              return (t, some p, isNewMessage)
            else .error .assertion
        else .error .assertion
    | _ => .ok (t, none, false)

/-- `InitMessage`. -/
def initMessage (cells : List (Option V)) :
    List Element → MessageTree V → MessagePtr → Nat → Except Fault (MessageTree V)
  | elements, t, p, fieldStart =>
    match cells, elements with
    | [], _ => .ok t
    | _ :: _, [] => .error .nullElement
    | cell :: cells, element :: elements =>
      match element.kind with
      | .result => initMessage cells elements (t.parseField lib p cell fieldStart) p (fieldStart + 1)
      | .association | .collection => do
        let (t, child, isNewMessage) ← innerMakeMessage (cell :: cells) element t (p.treeIndex + 1)
        return t.addIfNew p fieldStart child isNewMessage
      | .other => .error .assertion

end

/-- The body of the loop of `MakeMessage`, with the messages that were written to `dest`. -/
def makeRow (element : Element) (s : MessageTree V × List MessagePtr) (row : List (Option V)) :
    Except Fault (MessageTree V × List MessagePtr) := do
  let (t, p, isNewMessage) ← innerMakeMessage lib row element s.1 0
  return (t, if isNewMessage then s.2 ++ p.toList else s.2)

/-- `MakeMessage`, with the first child of the mapper element. -/
def makeMessage (element : Element) (rows : List (List (Option V))) :
    Except Fault (MessageTree V × List MessagePtr) :=
  rows.foldlM (makeRow lib element) ({}, [])

end

end Nemo.Orm
