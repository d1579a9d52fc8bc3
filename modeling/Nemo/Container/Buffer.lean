import Nemo.Http.Table

/-!
# `Buffer`

The part of `src/container/buffer.cc` that appends and clears. The bytes between `buff_` and `curr_`
are a list, and what is behind `curr_` is not looked at by anybody.
-/

namespace Nemo

open Http

/-- A `Buffer`: the bytes before `curr_`, and the size of the storage. -/
structure Buffer where
  bytes : Bytes := []
  capacity : Nat
  fixed : Bool := false
  deriving DecidableEq

namespace Buffer

variable (b : Buffer)

def size : Nat := b.bytes.length
def avail : Nat := b.capacity - b.size
def empty : Bool := b.bytes.isEmpty
def clear : Buffer := { b with bytes := [] }

/-- `append`, and the number that it returns. A fixed buffer takes all bytes or none. -/
def append (data : Bytes) : Nat × Buffer :=
  if b.avail < data.length then
    if b.fixed then (0, b)
    else
      let newSize := max (b.size * 2) (data.length + data.length / 2 + b.size)
      (data.length, { b with bytes := b.bytes ++ data, capacity := newSize })
  else (data.length, { b with bytes := b.bytes ++ data })

variable {b}

theorem append_of_le {data : Bytes} (h : data.length ≤ b.avail) :
    b.append data = (data.length, { b with bytes := b.bytes ++ data }) :=
  if_neg (Nat.not_lt.mpr h)

theorem bytes_of_empty (h : b.empty = true) : b.bytes = [] := List.isEmpty_iff.mp h

end Buffer

end Nemo
