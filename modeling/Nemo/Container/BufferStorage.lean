import Nemo.Container.Buffer
import Nemo.Infra.Blocks

/-!
# The storage of a `Buffer`

The constructors of `src/container/buffer.cc` and all its calls but `seek`, with what is stored behind
`curr_`. A `memcpy` beyond the storage, or beyond what it reads from, has no result (`none`).

`appendPossible` leaves one byte free in a fixed buffer. In a full one it computes `avail() - 1` all the
same, which wraps. Every other call stays within the storage (`staysWithin_iff`).
-/

namespace Nemo

open Http Infra

/--
The bytes from `buff_` to `endOfStorage_`, and `curr_` as a distance from `buff_`. A buffer that was moved
from has no storage.
-/
structure BufferStorage where
  storage : Bytes
  curr : Nat
  fixed : Bool
  deriving DecidableEq

/-- What is found in memory that was not initialized. -/
abbrev Heap := Nat → UInt8

/-- `malloc`, which is taken to succeed. -/
def malloc (heap : Heap) (n : Nat) : Bytes := (List.range n).map heap

/-- `memcpy` of `len` bytes to a place in a storage. -/
def memcpy (dest : Bytes) (pos : Nat) (src : Bytes) (len : Nat) : Option Bytes :=
  if len ≤ src.length ∧ pos + len ≤ dest.length then some (overwrite dest pos (src.take len)) else none

namespace BufferStorage

variable (b : BufferStorage)

def size : Nat := b.curr
def capacity : Nat := b.storage.length
def avail : Nat := b.capacity - b.size
def contents : Bytes := b.storage.take b.curr

/-- `Buffer(size_t, bool)` -/
def new (n : Nat) (fixed : Bool) (heap : Heap) : BufferStorage :=
  { storage := malloc heap n, curr := 0, fixed }

/-- `Buffer(const Buffer&)` -/
def copy (heap : Heap) : Option BufferStorage := do
  let storage ← memcpy (malloc heap b.capacity) 0 b.storage b.size
  return { storage, curr := b.size, fixed := b.fixed }

/-- What `Buffer(Buffer&&)` leaves of its argument. -/
def moved : BufferStorage := { b with storage := [], curr := 0 }

def ensureCapacity (heap : Heap) (n : Nat) : Option BufferStorage := do
  let newBuff ← memcpy (malloc heap n) 0 b.storage b.size
  return { b with storage := newBuff }

def clear : BufferStorage := { b with curr := 0 }

def resize (heap : Heap) (n : Nat) : Option BufferStorage :=
  if n < b.capacity then some { b with curr := n }
  else do
    let b ← b.ensureCapacity heap n
    return { b with curr := b.capacity }

/-- The last lines of both functions that append: the number returned, and the buffer. -/
def put (data : Bytes) (len : Nat) : Option (Nat × BufferStorage) := do
  let storage ← memcpy b.storage b.curr data len
  return (len, { b with storage, curr := b.curr + len })

/-- The size to which a buffer grows. -/
def newSize (len : Nat) : Nat := max (b.size * 2) (len + len / 2 + b.size)

def append (heap : Heap) (data : Bytes) : Option (Nat × BufferStorage) :=
  if b.avail < data.length then
    if b.fixed then some (0, b)
    else do
      let b ← b.ensureCapacity heap (b.newSize data.length)
      b.put data data.length
  else b.put data data.length

def appendPossible (heap : Heap) (data : Bytes) : Option (Nat × BufferStorage) :=
  if b.avail < data.length then
    -- a difference of two `size_t`
    if b.fixed then b.put data ((b.avail + (2 ^ 64 - 1)) % 2 ^ 64)
    else do
      let b ← b.ensureCapacity heap (b.newSize data.length)
      b.put data data.length
  else b.put data data.length

/-! ## Calls on many buffers -/

/-- A call on the `i`th of the buffers that were constructed, with what its `malloc` finds. -/
inductive Call
  | construct (n : Nat) (fixed : Bool) (heap : Heap)
  | copy (i : Nat) (heap : Heap)
  | move (i : Nat)
  | append (i : Nat) (data : Bytes) (heap : Heap)
  | appendPossible (i : Nat) (data : Bytes) (heap : Heap)
  | resize (i n : Nat) (heap : Heap)
  | clear (i : Nat)

/-- A call on the `i`th buffer. Nothing is done if there is none. -/
def onBuffer (bs : List BufferStorage) (i : Nat)
    (f : BufferStorage → Option (List BufferStorage)) : Option (List BufferStorage) :=
  match bs[i]? with
  | none => some bs
  | some b => f b

/-- The buffers after a call. `none` if it writes or reads where it must not. -/
def step (bs : List BufferStorage) : Call → Option (List BufferStorage)
  | .construct n fixed heap => some (bs ++ [new n fixed heap])
  | .copy i heap => onBuffer bs i fun b => (b.copy heap).map fun b' => bs ++ [b']
  | .move i => onBuffer bs i fun b => some (bs.set i b.moved ++ [b])
  | .append i data heap => onBuffer bs i fun b => (b.append heap data).map fun x => bs.set i x.2
  | .appendPossible i data heap =>
    onBuffer bs i fun b => (b.appendPossible heap data).map fun x => bs.set i x.2
  | .resize i n heap => onBuffer bs i fun b => (b.resize heap n).map fun b' => bs.set i b'
  | .clear i => onBuffer bs i fun b => some (bs.set i b.clear)

/-! ## What a call must do -/

/-- The invariant of the three pointers. -/
def Valid : Prop := b.size ≤ b.capacity

/-- The first `r` bytes of `data` come behind the contents; a growing buffer takes all of them. -/
structure Adds (data : Bytes) (r : Nat) (b' : BufferStorage) : Prop where
  count_le : r ≤ data.length
  contents : b'.contents = b.contents ++ data.take r
  growing : b.fixed = false → r = data.length

/-- What the two functions that append must do; nothing is said about the other calls. -/
def Right (bs : List BufferStorage) : Call → Prop
  | .append i data heap => ∀ b ∈ bs[i]?, ∃ r b', b.append heap data = some (r, b') ∧
      b.Adds data r b' ∧ (b.fixed = true → r = 0 ∨ r = data.length)
  | .appendPossible i data heap => ∀ b ∈ bs[i]?, ∃ r b', b.appendPossible heap data = some (r, b') ∧
      b.Adds data r b'
  | _ => True

/-- No call writes or reads where it must not, every call is right, and all buffers are valid all the time. -/
def StaysWithin : List BufferStorage → List Call → Prop
  | bs, [] => ∀ b ∈ bs, b.Valid
  | bs, c :: cs =>
    (∀ b ∈ bs, b.Valid) ∧ Right bs c ∧ ∃ bs', step bs c = some bs' ∧ StaysWithin bs' cs

/-- `appendPossible` is not called for a byte or more on a full fixed buffer. -/
def RoomLeft (bs : List BufferStorage) : Call → Prop
  | .appendPossible i data _ => ∀ b ∈ bs[i]?, b.fixed = true → data ≠ [] → 0 < b.avail
  | _ => True

/-- Every call finds room. -/
def AlwaysRoomLeft : List BufferStorage → List Call → Prop
  | _, [] => True
  | bs, c :: cs => RoomLeft bs c ∧ ∀ bs', step bs c = some bs' → AlwaysRoomLeft bs' cs

/-! ## Copying memory -/

variable {b} {heap : Heap} {data : Bytes}

theorem length_malloc (heap : Heap) (n : Nat) : (malloc heap n).length = n := by
  rw [malloc, List.length_map, List.length_range]

theorem memcpy_eq (dest : Bytes) (pos : Nat) {src : Bytes} {len : Nat} (hsrc : len ≤ src.length)
    (hdest : pos + len ≤ dest.length) :
    ∃ dest', memcpy dest pos src len = some dest' ∧ dest'.length = dest.length ∧
      dest'.take (pos + len) = dest.take pos ++ src.take len := by
  have hlen : (src.take len).length = len := by
    rw [List.length_take]
    omega
  rw [← hlen] at hdest
  refine ⟨_, if_pos ⟨hsrc, hlen ▸ hdest⟩, length_overwrite hdest, ?_⟩
  have htake := take_overwrite hdest
  rwa [hlen] at htake

theorem ensureCapacity_eq (h : b.Valid) (heap : Heap) {n : Nat} (hn : b.size ≤ n) :
    ∃ b', b.ensureCapacity heap n = some b' ∧ b'.curr = b.curr ∧ b'.capacity = n ∧
      b'.contents = b.contents ∧ b'.fixed = b.fixed := by
  obtain ⟨newBuff, hcopy, hlen, htake⟩ := memcpy_eq (malloc heap n) 0 h
    (by rw [length_malloc, Nat.zero_add]; exact hn)
  rw [length_malloc] at hlen
  rw [Nat.zero_add, List.take_zero, List.nil_append] at htake
  exact ⟨{ b with storage := newBuff }, by rw [ensureCapacity, hcopy]; rfl, rfl, hlen, htake, rfl⟩

theorem put_eq (b : BufferStorage) (data : Bytes) (len : Nat) (hdata : len ≤ data.length)
    (hfit : b.curr + len ≤ b.capacity) :
    ∃ b', b.put data len = some (len, b') ∧ b'.Valid ∧ b'.contents = b.contents ++ data.take len ∧
      b'.capacity = b.capacity ∧ b'.fixed = b.fixed := by
  obtain ⟨storage, hcopy, hlen, htake⟩ := memcpy_eq b.storage b.curr hdata hfit
  refine ⟨{ b with storage, curr := b.curr + len }, by rw [put, hcopy]; rfl, ?_, htake, hlen, rfl⟩
  show b.curr + len ≤ storage.length
  rw [hlen]
  exact hfit

/-! ## The calls -/

/-- A growing buffer takes all of the data, as does every buffer with room for it. -/
theorem grow_put (h : b.Valid) (heap : Heap) (data : Bytes) :
    ∃ b', (do let b ← b.ensureCapacity heap (b.newSize data.length)
              b.put data data.length) = some (data.length, b') ∧
      b'.Valid ∧ b'.contents = b.contents ++ data ∧ b'.capacity = b.newSize data.length ∧
      b'.fixed = b.fixed := by
  have hnew : b.size + data.length ≤ b.newSize data.length := by
    unfold newSize
    omega
  obtain ⟨b₁, hensure, hcurr, hcap, hcontents, hfixed⟩ :=
    ensureCapacity_eq h heap (Nat.le_trans (Nat.le_add_right _ _) hnew)
  obtain ⟨b', hput, hvalid, hadd, hcap', hfixed'⟩ := put_eq b₁ data data.length (Nat.le_refl _)
    (by rw [hcurr, hcap]; exact hnew)
  refine ⟨b', ?_, hvalid, ?_, hcap'.trans hcap, hfixed'.trans hfixed⟩
  · rw [hensure]
    exact hput
  · rw [hadd, hcontents, List.take_length]

theorem put_of_le (h : b.Valid) (hfit : data.length ≤ b.avail) :
    ∃ b', b.put data data.length = some (data.length, b') ∧ b'.Valid ∧
      b'.contents = b.contents ++ data ∧ b'.capacity = b.capacity ∧ b'.fixed = b.fixed := by
  unfold Valid size at h
  unfold avail size at hfit
  obtain ⟨b', hput, hvalid, hadd, hrest⟩ := put_eq b data data.length (Nat.le_refl _) (by omega)
  exact ⟨b', hput, hvalid, by rw [hadd, List.take_length], hrest⟩

/-- All of the data are added. -/
theorem Adds.all {b' : BufferStorage} (h : b'.contents = b.contents ++ data) :
    b.Adds data data.length b' :=
  ⟨Nat.le_refl _, by rw [h, List.take_length], fun _ => rfl⟩

theorem append_right (h : b.Valid) (heap : Heap) (data : Bytes) :
    ∃ r b', b.append heap data = some (r, b') ∧ b'.Valid ∧ b.Adds data r b' ∧
      (b.fixed = true → r = 0 ∨ r = data.length) := by
  unfold append
  split
  · split
    · next hfixed =>
      refine ⟨0, b, rfl, h, ⟨Nat.zero_le _, ?_, fun hgrow => ?_⟩, fun _ => .inl rfl⟩
      · rw [List.take_zero, List.append_nil]
      · rw [hgrow] at hfixed
        cases hfixed
    · obtain ⟨b', hput, hvalid, hadd, -⟩ := grow_put h heap data
      exact ⟨_, b', hput, hvalid, .all hadd, fun _ => .inr rfl⟩
  · next hfit =>
    obtain ⟨b', hput, hvalid, hadd, -⟩ := put_of_le h (Nat.not_lt.mp hfit)
    exact ⟨_, b', hput, hvalid, .all hadd, fun _ => .inr rfl⟩

theorem appendPossible_right (h : b.Valid) (heap : Heap) (data : Bytes)
    (hroom : b.fixed = true → data ≠ [] → 0 < b.avail) :
    ∃ r b', b.appendPossible heap data = some (r, b') ∧ b'.Valid ∧ b.Adds data r b' := by
  unfold appendPossible
  split
  · next hlong =>
    split
    · next hfixed =>
      have hpos : 0 < b.avail := hroom hfixed (List.ne_nil_of_length_pos (by omega))
      have hwrap : (b.avail + (2 ^ 64 - 1)) % 2 ^ 64 ≤ b.avail - 1 := by
        rw [show b.avail + (2 ^ 64 - 1) = b.avail - 1 + 2 ^ 64 by omega, Nat.add_mod_right]
        exact Nat.mod_le _ _
      have havail : b.curr + b.avail ≤ b.capacity := Nat.le_of_eq (Nat.add_sub_of_le h)
      obtain ⟨b', hput, hvalid, hadd, -⟩ :=
        put_eq b data ((b.avail + (2 ^ 64 - 1)) % 2 ^ 64) (by omega) (by omega)
      refine ⟨_, b', hput, hvalid, by omega, hadd, fun hgrow => ?_⟩
      rw [hgrow] at hfixed
      cases hfixed
    · obtain ⟨b', hput, hvalid, hadd, -⟩ := grow_put h heap data
      exact ⟨_, b', hput, hvalid, .all hadd⟩
  · next hfit =>
    obtain ⟨b', hput, hvalid, hadd, -⟩ := put_of_le h (Nat.not_lt.mp hfit)
    exact ⟨_, b', hput, hvalid, .all hadd⟩

/-- Without room, the length wraps. -/
theorem appendPossible_full (heap : Heap) (hfixed : b.fixed = true) (hdata : data ≠ [])
    (hfull : b.avail = 0) (h : b.Valid) : b.appendPossible heap data = none := by
  have hcurr : b.curr = b.storage.length := Nat.le_antisymm h (Nat.sub_eq_zero_iff_le.mp hfull)
  rw [appendPossible, if_pos (by rw [hfull]; exact List.length_pos_of_ne_nil hdata), if_pos hfixed, put,
    hfull, memcpy, if_neg (by omega)]
  rfl

theorem resize_valid (h : b.Valid) (heap : Heap) (n : Nat) :
    ∃ b', b.resize heap n = some b' ∧ b'.Valid := by
  unfold resize
  split
  · next hlt => exact ⟨_, rfl, Nat.le_of_lt hlt⟩
  · next hle =>
    obtain ⟨b', hensure, -⟩ := ensureCapacity_eq h heap (Nat.le_trans h (Nat.not_lt.mp hle))
    exact ⟨_, by rw [hensure]; rfl, Nat.le_refl _⟩

/-- A copy has the same contents. -/
theorem copy_eq (h : b.Valid) (heap : Heap) :
    ∃ b', b.copy heap = some b' ∧ b'.Valid ∧ b'.contents = b.contents := by
  obtain ⟨b', hensure, hcurr, hcap, hcontents, -⟩ := ensureCapacity_eq h heap h
  obtain ⟨storage, hcopy, heq⟩ := Option.bind_eq_some_iff.mp hensure
  cases heq
  exact ⟨⟨storage, b.size, b.fixed⟩, by rw [copy, hcopy]; rfl, Nat.le_trans h (Nat.le_of_eq hcap.symm),
    hcontents⟩

/-! ## Runs -/

section Runs

variable {bs bs' : List BufferStorage} {i : Nat}

theorem valid_set (h : ∀ b ∈ bs, b.Valid) {b' : BufferStorage} (h' : b'.Valid) :
    ∀ b ∈ bs.set i b', b.Valid := fun b hb =>
  (List.mem_or_eq_of_mem_set hb).elim (h b) fun heq => heq ▸ h'

theorem valid_concat (h : ∀ b ∈ bs, b.Valid) {b' : BufferStorage} (h' : b'.Valid) :
    ∀ b ∈ bs ++ [b'], b.Valid := fun b hb =>
  (List.mem_append.mp hb).elim (h b) fun heq => List.mem_singleton.mp heq ▸ h'

theorem onBuffer_valid {f : BufferStorage → Option (List BufferStorage)} (h : ∀ b ∈ bs, b.Valid)
    (hf : ∀ b ∈ bs[i]?, b.Valid → ∃ bs', f b = some bs' ∧ ∀ b ∈ bs', b.Valid) :
    ∃ bs', onBuffer bs i f = some bs' ∧ ∀ b ∈ bs', b.Valid := by
  unfold onBuffer
  split
  · exact ⟨bs, rfl, h⟩
  · next b heq => exact hf b heq (h b (List.mem_of_getElem? heq))

/-- A call that finds room is right, and leaves valid buffers. -/
theorem step_valid (h : ∀ b ∈ bs, b.Valid) {c : Call} (hroom : RoomLeft bs c) :
    Right bs c ∧ ∃ bs', step bs c = some bs' ∧ ∀ b ∈ bs', b.Valid := by
  cases c with
  | construct n fixed heap => exact ⟨trivial, _, rfl, valid_concat h (Nat.zero_le _)⟩
  | copy i heap =>
    refine ⟨trivial, onBuffer_valid h fun b _ hb => ?_⟩
    obtain ⟨b', hcopy, hvalid, -⟩ := copy_eq hb heap
    exact ⟨_, by rw [hcopy]; rfl, valid_concat h hvalid⟩
  | move i =>
    exact ⟨trivial, onBuffer_valid h fun b _ hb =>
      ⟨_, rfl, valid_concat (valid_set h (show b.moved.Valid from Nat.le_refl 0)) hb⟩⟩
  | append i data heap =>
    refine ⟨fun b hi => ?_, onBuffer_valid h fun b _ hb => ?_⟩
    · obtain ⟨r, b', happend, -, hadds, hall⟩ := append_right (h b (List.mem_of_getElem? hi)) heap data
      exact ⟨r, b', happend, hadds, hall⟩
    · obtain ⟨r, b', happend, hvalid, -⟩ := append_right hb heap data
      exact ⟨_, by rw [happend]; rfl, valid_set h hvalid⟩
  | appendPossible i data heap =>
    refine ⟨fun b hi => ?_, onBuffer_valid h fun b hi hb => ?_⟩
    · obtain ⟨r, b', happend, -, hadds⟩ :=
        appendPossible_right (h b (List.mem_of_getElem? hi)) heap data (hroom b hi)
      exact ⟨r, b', happend, hadds⟩
    · obtain ⟨r, b', happend, hvalid, -⟩ := appendPossible_right hb heap data (hroom b hi)
      exact ⟨_, by rw [happend]; rfl, valid_set h hvalid⟩
  | resize i n heap =>
    refine ⟨trivial, onBuffer_valid h fun b _ hb => ?_⟩
    obtain ⟨b', hresize, hvalid⟩ := resize_valid hb heap n
    exact ⟨_, by rw [hresize]; rfl, valid_set h hvalid⟩
  | clear i =>
    exact ⟨trivial, onBuffer_valid h fun b _ _ => ⟨_, rfl, valid_set h (Nat.zero_le _)⟩⟩

/-- A call that finds no room is not right. -/
theorem roomLeft_of_right (h : ∀ b ∈ bs, b.Valid) {c : Call} (hright : Right bs c) : RoomLeft bs c := by
  cases c with
  | appendPossible i data heap =>
    intro b hi hfixed hdata
    by_contra hfull
    obtain ⟨r, b', happend, -⟩ := hright b hi
    rw [appendPossible_full heap hfixed hdata (Nat.eq_zero_of_not_pos hfull)
      (h b (List.mem_of_getElem? hi))] at happend
    cases happend
  | _ => trivial

theorem staysWithin_iff_of_valid (calls : List Call) (h : ∀ b ∈ bs, b.Valid) :
    StaysWithin bs calls ↔ AlwaysRoomLeft bs calls := by
  induction calls generalizing bs with
  | nil => exact iff_of_true h trivial
  | cons c calls ih =>
    constructor
    · rintro ⟨-, hright, bs', hstep, hrest⟩
      refine ⟨roomLeft_of_right h hright, fun bs'' hstep' => ?_⟩
      obtain ⟨-, bs₁, hstep₁, hvalid⟩ := step_valid h (roomLeft_of_right h hright)
      rw [hstep] at hstep' hstep₁
      cases hstep'
      cases hstep₁
      exact (ih hvalid).mp hrest
    · rintro ⟨hroom, hrest⟩
      obtain ⟨hright, bs', hstep, hvalid⟩ := step_valid h hroom
      exact ⟨h, hright, bs', hstep, (ih hvalid).mpr (hrest bs' hstep)⟩

end Runs

/--
**Buffers stay within their storage** in every run in which `appendPossible` is never called for a byte or
more on a fixed buffer that is full, and in no other run.
-/
theorem staysWithin_iff (calls : List Call) : StaysWithin [] calls ↔ AlwaysRoomLeft [] calls :=
  staysWithin_iff_of_valid calls nofun

/-- A fixed buffer for one byte has got one, and another one is to be added as far as possible. -/
theorem not_staysWithin : ¬ ∀ calls, StaysWithin [] calls := by
  intro h
  have hfull : appendPossible ⟨[7], 1, true⟩ (fun _ => 0) [8] = none :=
    appendPossible_full _ rfl (List.cons_ne_nil _ _) rfl (Nat.le_refl 1)
  obtain ⟨-, -, bs₁, hnew, -, -, bs₂, happend, -, hright, -⟩ :=
    h [.construct 1 true fun _ => 0, .append 0 [7] fun _ => 0, .appendPossible 0 [8] fun _ => 0]
  obtain rfl : [new 1 true fun _ => 0] = bs₁ := Option.some.inj hnew
  obtain rfl : [⟨[7], 1, true⟩] = bs₂ := Option.some.inj happend
  obtain ⟨r, b', hnone, -⟩ := hright _ rfl
  rw [hfull] at hnone
  cases hnone

/-! ## The bytes before `curr_` -/

/-- What can be seen of a buffer without its storage. -/
def toBuffer (b : BufferStorage) : Buffer :=
  { bytes := b.contents, capacity := b.capacity, fixed := b.fixed }

/-- `append` is `Buffer.append` on the bytes before `curr_`. -/
theorem toBuffer_append (h : b.Valid) (heap : Heap) (data : Bytes) :
    (b.append heap data).map (fun x => (x.1, x.2.toBuffer)) = some (b.toBuffer.append data) := by
  have hsize : b.toBuffer.size = b.size := by
    show (b.storage.take b.curr).length = b.curr
    rw [List.length_take]
    exact Nat.min_eq_left h
  have havail : b.toBuffer.avail = b.avail := by
    unfold Buffer.avail avail
    rw [hsize]
    rfl
  unfold append Buffer.append
  rw [havail, hsize]
  split
  · show Option.map _ (if b.fixed = true then _ else _) = some (if b.fixed = true then _ else _)
    split
    · rfl
    · obtain ⟨b', hput, -, hadd, hcap, hfixed⟩ := grow_put h heap data
      rw [hput, Option.map_some, toBuffer, hadd, hcap, hfixed]
      rfl
  · next hfit =>
    obtain ⟨b', hput, -, hadd, hcap, hfixed⟩ := put_of_le h (Nat.not_lt.mp hfit)
    rw [hput, Option.map_some, toBuffer, hadd, hcap, hfixed]
    rfl

end BufferStorage

end Nemo
