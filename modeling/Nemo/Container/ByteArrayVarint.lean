import Nemo.Container.ByteArrayFixed
import Nemo.Infra.Varint

/-!
# Values of a variable width

`write` for `uint32_t` and `uint64_t`, and `readUint32` and `readUint64`.

The loop of `write` runs over the groups of seven bits of the value. The loop of `ReadAux` counts bits
in `i`, but stops at `sizeof(value)`, which counts bytes: it takes one group of a `uint32_t`, and two
groups of a `uint64_t`.

* `writes_writeVarint` — `write` appends all groups
* `reads_readAux` — `ReadAux` takes the first groups only
-/

namespace Nemo.ByteArray

open Infra

/-! ## The functions -/

/-- The loop of `write`. There is room for `room` more bytes in `tmp`. -/
def varintLoop : Nat → Nat → Option (List Byte)
  | 0, _ => none
  | room + 1, value =>
    if value ≥ 0x80 then
      (varintLoop room (value >>> 7)).map (UInt8.ofNat ((value &&& 0x7F) ||| 0x80) :: ·)
    else some [UInt8.ofNat value]

def writeVarint (room value : Nat) (b : ByteArray) : Option ByteArray :=
  (varintLoop room value).bind b.write

def writeUint32 (value : UInt32) : ByteArray → Option ByteArray := writeVarint 5 value.toNat

def writeUint64 (value : UInt64) : ByteArray → Option ByteArray := writeVarint 10 value.toNat

/-- The loop of `ReadAux`, for a `T` of `size` bytes. The shifts are those of a `uint32_t`. -/
def readAux (native : Endian) (size value i : Nat) : Reader Nat :=
  if i < size then do
    let tmp ← readFixedUint8 native
    if tmp < 0x80 then
      return value ||| (tmp.toNat <<< i) % 2 ^ 32
    else
      readAux native size (value ||| ((tmp &&& 0x7F).toNat <<< i) % 2 ^ 32) (i + 7)
  else
    return value
termination_by size - i

def readUint32 (native : Endian) : Reader UInt32 := UInt32.ofNat <$> readAux native 4 0 0

def readUint64 (native : Endian) : Reader UInt64 := UInt64.ofNat <$> readAux native 8 0 0

/-! ## Their bytes -/

/-- Enough room for the groups of the value. -/
theorem varintLoop_eq {room value : Nat} (h : value < 128 ^ (room + 1)) :
    varintLoop (room + 1) value = some (varint value) := by
  induction room generalizing value with
  | zero =>
    have hlt : value < 128 := by rwa [Nat.zero_add, Nat.pow_one] at h
    rw [varintLoop, if_neg (Nat.not_le.mpr hlt), varint_of_lt hlt]
  | succ room ih =>
    rw [varintLoop]
    split
    · next hge =>
      have hshift : value >>> 7 = value / 128 := Nat.shiftRight_eq_div_pow value 7
      have hlow : (value &&& 0x7F) ||| 0x80 = value % 128 + 128 := by
        have hmask : value &&& 0x7F = value % 128 := Nat.and_two_pow_sub_one_eq_mod value 7
        have hadd := Nat.two_pow_add_eq_or_of_lt (Nat.mod_lt value (show 0 < 2 ^ 7 by decide)) 1
        rw [hmask, Nat.or_comm, Nat.add_comm]
        exact hadd.symm
      have hrest : value / 128 < 128 ^ (room + 1) := Nat.div_lt_of_lt_mul (by rwa [← Nat.pow_succ'])
      rw [hshift, hlow, ih hrest, varint_of_ge hge]
      rfl
    · next hlt => rw [varint_of_lt (Nat.not_le.mp hlt)]

theorem writes_writeVarint {room value : Nat} (h : value < 128 ^ (room + 1)) :
    Writes (writeVarint (room + 1) value) (varint value) := by
  have heq : writeVarint (room + 1) value = fun b => b.write (varint value) := by
    funext b
    rw [writeVarint, varintLoop_eq h, Option.bind_some]
  rw [heq]
  exact writes_write _

/-- A byte is read as it is. -/
theorem reads_readFixedUint8 (native : Endian) (tmp : UInt8) :
    Reads (readFixedUint8 native) [tmp] tmp := by
  have hbyte := reads_byte native .little UInt8.ofBitVec tmp.toBitVec
  have hbytes : bytesOf (k := 1) .little tmp.toBitVec = [tmp] :=
    congrArg (· :: []) (UInt8.ofNat_toNat (x := tmp))
  rwa [hbytes] at hbyte

section

variable (native : Endian) (size : Nat) {a i : Nat} {tmp : UInt8}

/-- The turn of the loop that reads a byte without the high bit. -/
theorem reads_readAux_last (hi : i < size) (htmp : tmp < 0x80) :
    Reads (readAux native size a i) [tmp] (a ||| (tmp.toNat <<< i) % 2 ^ 32) := by
  rw [readAux, if_pos hi]
  have hrest : Reads (if tmp < 0x80 then pure (a ||| (tmp.toNat <<< i) % 2 ^ 32)
      else readAux native size (a ||| ((tmp &&& 0x7F).toNat <<< i) % 2 ^ 32) (i + 7)) []
      (a ||| (tmp.toNat <<< i) % 2 ^ 32) := by
    rw [if_pos htmp]
    exact Reads.pure _
  exact (reads_readFixedUint8 native tmp).bind hrest

/-- The turn of the loop that reads a byte with the high bit. -/
theorem reads_readAux_more (hi : i < size) (htmp : ¬ tmp < 0x80) {bytes : List Byte} {value : Nat}
    (hrest : Reads (readAux native size (a ||| ((tmp &&& 0x7F).toNat <<< i) % 2 ^ 32) (i + 7))
      bytes value) :
    Reads (readAux native size a i) (tmp :: bytes) value := by
  rw [readAux, if_pos hi]
  have hrest' : Reads (if tmp < 0x80 then pure (a ||| (tmp.toNat <<< i) % 2 ^ 32)
      else readAux native size (a ||| ((tmp &&& 0x7F).toNat <<< i) % 2 ^ 32) (i + 7)) bytes
      value := by
    rwa [if_neg htmp]
  exact (reads_readFixedUint8 native tmp).bind hrest'

/-- What was read stays below the group that comes next. -/
theorem add_group_lt {group : Nat} (ha : a < 2 ^ i) (hgroup : group < 128) :
    a + 2 ^ i * group < 2 ^ (i + 7) := by
  calc a + 2 ^ i * group < 2 ^ i + 2 ^ i * group := Nat.add_lt_add_right ha _
    _ = 2 ^ i * (group + 1) := by rw [Nat.mul_succ, Nat.add_comm]
    _ ≤ 2 ^ i * 2 ^ 7 := Nat.mul_le_mul_left _ hgroup
    _ = 2 ^ (i + 7) := (Nat.pow_add 2 i 7).symm

/-- A group that is shifted to the bit `i` stays in the word, and meets none of the bits below. -/
theorem or_group {group : Nat} (ha : a < 2 ^ i) (hgroup : group < 128) (hi : i + 7 ≤ 32) :
    a ||| (group <<< i) % 2 ^ 32 = a + 2 ^ i * group := by
  have hword : group <<< i < 2 ^ 32 := by
    rw [Nat.shiftLeft_eq, Nat.mul_comm]
    calc 2 ^ i * group < 2 ^ i * 2 ^ 7 := Nat.mul_lt_mul_of_pos_left hgroup (Nat.two_pow_pos i)
      _ = 2 ^ (i + 7) := (Nat.pow_add 2 i 7).symm
      _ ≤ 2 ^ 32 := Nat.pow_le_pow_right (by decide) hi
  rw [Nat.mod_eq_of_lt hword, Nat.shiftLeft_eq, Nat.mul_comm group, Nat.or_comm,
    ← Nat.two_pow_add_eq_or_of_lt ha, Nat.add_comm]

/--
`ReadAux` takes the first `k` groups, where `k` is the number of turns that are left to the loop. What
was read is below the bit `i`.
-/
theorem reads_readAux (k n : Nat) (ha : a < 2 ^ i) (hlow : 0 < k → i + 7 * (k - 1) < size)
    (hhigh : size ≤ i + 7 * k) (hwidth : i + 7 * k ≤ 32) :
    Reads (readAux native size a i) ((varint n).take k) (a + 2 ^ i * (n % 128 ^ k)) := by
  induction k generalizing a i n with
  | zero =>
    rw [readAux, if_neg (by omega), List.take_zero, Nat.pow_zero, Nat.mod_one, Nat.mul_zero,
      Nat.add_zero]
    exact Reads.pure a
  | succ k ih =>
    have hi : i < size := Nat.lt_of_le_of_lt (Nat.le_add_right _ _) (hlow (Nat.succ_pos k))
    by_cases hn : n < 128
    · have hbyte : (UInt8.ofNat n).toNat = n := by
        rw [UInt8.toNat_ofNat']
        omega
      have hlt : UInt8.ofNat n < 0x80 := UInt8.lt_iff_toNat_lt.mpr (by rwa [hbyte])
      have hmod : n % 128 ^ (k + 1) = n :=
        Nat.mod_eq_of_lt (Nat.lt_of_lt_of_le hn (Nat.le_self_pow (Nat.succ_ne_zero k) 128))
      have hread := reads_readAux_last native size hi hlt (a := a)
      rw [hbyte, or_group ha hn (by omega)] at hread
      rwa [varint_of_lt hn, hmod, List.take_succ_cons, List.take_nil]
    · have hmod := Nat.mod_lt n (show 0 < 128 by decide)
      have hbyte : (UInt8.ofNat (n % 128 + 128)).toNat = n % 128 + 128 := by
        rw [UInt8.toNat_ofNat']
        omega
      have hge : ¬ UInt8.ofNat (n % 128 + 128) < 0x80 := by
        rw [UInt8.lt_iff_toNat_lt, hbyte]
        exact Nat.not_lt.mpr (Nat.le_add_left _ _)
      have hmask : (UInt8.ofNat (n % 128 + 128) &&& 0x7F).toNat = n % 128 := by
        rw [UInt8.toNat_and, hbyte]
        show (n % 128 + 128) &&& (2 ^ 7 - 1) = _
        rw [Nat.and_two_pow_sub_one_eq_mod]
        omega
      -- the other groups are those of `n / 128`
      have hvalue : a + 2 ^ i * (n % 128 ^ (k + 1)) =
          a + 2 ^ i * (n % 128) + 2 ^ (i + 7) * (n / 128 % 128 ^ k) := by
        rw [Nat.pow_succ', Nat.mod_mul, Nat.pow_add, Nat.mul_add, Nat.mul_assoc, Nat.add_assoc]
      rw [varint_of_ge (Nat.not_lt.mp hn), List.take_succ_cons, hvalue]
      refine reads_readAux_more native size hi hge ?_
      rw [hmask, or_group ha hmod (by omega)]
      exact ih (n / 128) (add_group_lt ha hmod) (by omega) (by omega) (by omega)

end

/-! ## Lists of values -/

/-- A value of a variable width. -/
inductive Varint
  | uint32 (value : UInt32)
  | uint64 (value : UInt64)
  deriving DecidableEq

/-- The type of a value. -/
inductive VarintType
  | uint32 | uint64

namespace Varint

def type : Varint → VarintType
  | uint32 _ => .uint32
  | uint64 _ => .uint64

def toNat : Varint → Nat
  | uint32 value => value.toNat
  | uint64 value => value.toNat

/-- The overload of `write` that writes the value. -/
def write : Varint → ByteArray → Option ByteArray
  | uint32 value => writeUint32 value
  | uint64 value => writeUint64 value

/-- The function that reads a value of the type. -/
def read (native : Endian) : VarintType → Reader Varint
  | .uint32 => uint32 <$> readUint32 native
  | .uint64 => uint64 <$> readUint64 native

/-- How many groups of a value of the type `ReadAux` takes. -/
def groupsRead : VarintType → Nat
  | .uint32 => 1
  | .uint64 => 2

/-- The bytes of a value. -/
def bytes (value : Varint) : List Byte := varint value.toNat

/-- Those of them that are read. -/
def bytesRead (value : Varint) : List Byte := (bytes value).take (groupsRead value.type)

/-- What is read of a value. -/
def truncated : Varint → Varint
  | uint32 value => uint32 (UInt32.ofNat (value.toNat % 128 ^ 1))
  | uint64 value => uint64 (UInt64.ofNat (value.toNat % 128 ^ 2))

theorem writes_write (value : Varint) : Writes (write value) (bytes value) := by
  cases value with
  | uint32 value =>
    have hlt : value.toNat < 128 ^ 5 := Nat.lt_trans value.toNat_lt (by decide)
    exact writes_writeVarint hlt
  | uint64 value =>
    have hlt : value.toNat < 128 ^ 10 := Nat.lt_trans value.toNat_lt (by decide)
    exact writes_writeVarint hlt

theorem reads_read (native : Endian) (value : Varint) :
    Reads (read native value.type) (bytesRead value) value.truncated := by
  cases value with
  | uint32 value =>
    have hread := reads_readAux native 4 (i := 0) 1 value.toNat (Nat.two_pow_pos 0) (by decide)
      (by decide) (by decide)
    rw [Nat.pow_zero, Nat.one_mul, Nat.zero_add] at hread
    exact (hread.map UInt32.ofNat).map uint32
  | uint64 value =>
    have hread := reads_readAux native 8 (i := 0) 2 value.toNat (Nat.two_pow_pos 0) (by decide)
      (by decide) (by decide)
    rw [Nat.pow_zero, Nat.one_mul, Nat.zero_add] at hread
    exact (hread.map UInt64.ofNat).map uint64

/-- A value is read as it is if it has no other groups. -/
theorem truncated_eq_iff (value : Varint) :
    value.truncated = value ↔ value.toNat < 128 ^ groupsRead value.type := by
  cases value with
  | uint32 value =>
    have hlt := value.toNat_lt
    show uint32 (UInt32.ofNat (value.toNat % 128 ^ 1)) = uint32 value ↔ value.toNat < 128 ^ 1
    rw [uint32.injEq, ← UInt32.toNat_inj, UInt32.toNat_ofNat', Nat.mod_eq_of_lt (by omega)]
    exact Nat.mod_eq_iff_lt (by decide)
  | uint64 value =>
    have hlt := value.toNat_lt
    show uint64 (UInt64.ofNat (value.toNat % 128 ^ 2)) = uint64 value ↔ value.toNat < 128 ^ 2
    rw [uint64.injEq, ← UInt64.toNat_inj, UInt64.toNat_ofNat', Nat.mod_eq_of_lt (by omega)]
    exact Nat.mod_eq_iff_lt (by decide)

/-- Then all of its bytes are read. -/
theorem bytesRead_eq {value : Varint} (h : value.truncated = value) : bytesRead value = bytes value := by
  have hlt := (truncated_eq_iff value).mp h
  refine List.take_of_length_le (length_varint_le ?_ hlt)
  cases value <;> simp [type, groupsRead]

/-- A byte for each group of the value. -/
def size (value : Varint) : Nat := 1 + Nat.log 128 value.toNat

/-- The number of bytes of a list of values. -/
theorem length_flatMap_bytes (values : List Varint) :
    (values.flatMap bytes).length = (values.map size).sum := by
  rw [List.length_flatMap]
  congr 1
  exact List.map_congr_left fun value _ => length_varint value.toNat

end Varint

/--
The values are written into a fresh array and read back, and after each of them as many bytes have been
read as had been written when it was written, a byte for each of its groups.
-/
def VarintRoundTrip (heap : Nat → Nat → Byte) (first B : Nat) (native : Endian) (values : List Varint) :
    Prop :=
  ∃ b, writeAll Varint.write values (new heap first B) = some b ∧
    ∀ front, front <+: values → ∃ b₁ b₂,
      writeAll Varint.write front (new heap first B) = some b₁ ∧
      readAll (Varint.read native) (front.map Varint.type) b = some (.ok front, b₂) ∧
      b₂.position = b₁.getTotalBytes ∧
      b₁.getTotalBytes = (front.map Varint.size).sum

section

variable {heap : Nat → Nat → Byte} {first B : Nat} (native : Endian) {values : List Varint}

/-- A front of the values whose bytes, up to the last value, are all read. -/
theorem readAll_front {b : ByteArray} {front : List Varint} {value : Varint}
    (hb : Holds b (values.flatMap Varint.bytes) 0) (hpre : front ++ [value] <+: values)
    (hfront : ∀ v ∈ front, v.truncated = v) :
    ∃ b₂, readAll (Varint.read native) ((front ++ [value]).map Varint.type) b =
      some (.ok (front ++ [value.truncated]), b₂) := by
  have hbytes : (front ++ [value]).flatMap Varint.bytesRead <+: values.flatMap Varint.bytes := by
    have hsame : front.flatMap Varint.bytesRead = front.flatMap Varint.bytes :=
      List.flatMap_congr fun v hv => Varint.bytesRead_eq (hfront v hv)
    obtain ⟨rest, rfl⟩ := hpre
    rw [List.flatMap_append, List.flatMap_append, List.flatMap_append, hsame, List.append_assoc,
      List.prefix_append_right_inj, List.flatMap_singleton, List.flatMap_singleton]
    exact (List.take_prefix _ _).trans (List.prefix_append _ _)
  obtain ⟨b₂, hread, -⟩ := Reads.all (front ++ [value]) (fun v _ => Varint.reads_read native v)
    b _ 0 hb hbytes
  have hmap : (front ++ [value]).map Varint.truncated = front ++ [value.truncated] := by
    rw [List.map_append, List.map_congr_left hfront, List.map_id']
    rfl
  rw [hmap] at hread
  exact ⟨b₂, hread⟩

/-- If all groups of all values are read, so are the values. -/
theorem varintRoundTrip_of_truncated (hB : 0 < B) (h : ∀ value ∈ values, value.truncated = value)
    (hroom : min B (values.flatMap Varint.bytes).length ≤ first) :
    VarintRoundTrip heap first B native values := by
  obtain ⟨b, hwrite, hb⟩ := writeAll_new heap hB (fun value (_ : value ∈ values) =>
    Varint.writes_write value) hroom
  refine ⟨b, hwrite, fun front hpre => ?_⟩
  have hfront : ∀ value ∈ front, value.truncated = value := fun value hv => h value (hpre.subset hv)
  have hroomFront : min B (front.flatMap Varint.bytes).length ≤ first := by
    obtain ⟨rest, rfl⟩ := hpre
    rw [List.flatMap_append] at hroom
    exact room_of_append hroom
  obtain ⟨b₁, hwrite₁, hb₁⟩ := writeAll_new heap hB (fun value (_ : value ∈ front) =>
    Varint.writes_write value) hroomFront
  have hsame : front.flatMap Varint.bytesRead = front.flatMap Varint.bytes :=
    List.flatMap_congr fun value hv => Varint.bytesRead_eq (hfront value hv)
  have hbytes : front.flatMap Varint.bytesRead <+: values.flatMap Varint.bytes := by
    obtain ⟨rest, rfl⟩ := hpre
    rw [hsame, List.flatMap_append]
    exact List.prefix_append _ _
  obtain ⟨b₂, hread, hb₂⟩ := Reads.all front (fun value _ => Varint.reads_read native value)
    b _ 0 hb hbytes
  rw [List.map_congr_left hfront, List.map_id'] at hread
  refine ⟨b₁, b₂, hwrite₁, hread, ?_, ?_⟩
  · rw [hb₂.position_eq, hb₁.getTotalBytes_eq, hsame, Nat.zero_add]
  · rw [hb₁.getTotalBytes_eq, Varint.length_flatMap_bytes]

/-- What is read back had room. -/
theorem VarintRoundTrip.room {native : Endian} (hB : 0 < B)
    (h : VarintRoundTrip heap first B native values) :
    min B (values.flatMap Varint.bytes).length ≤ first := by
  obtain ⟨b, hwrite, -⟩ := h
  exact room_of_writeAll hB (fun value _ => Varint.writes_write value) hwrite

/-- If the values are read, so are all groups of all values. -/
theorem VarintRoundTrip.truncated {native : Endian} (hB : 0 < B)
    (h : VarintRoundTrip heap first B native values) : ∀ value ∈ values, value.truncated = value := by
  have hroom := h.room hB
  obtain ⟨b, hwrite, hreads⟩ := h
  obtain ⟨b', hwrite', hb⟩ := writeAll_new heap hB (fun value (_ : value ∈ values) =>
    Varint.writes_write value) hroom
  obtain rfl : b' = b := Option.some.inj (hwrite'.symm.trans hwrite)
  suffices hfront : ∀ front, front <+: values → ∀ value ∈ front, value.truncated = value from
    hfront values (List.prefix_refl _)
  intro front
  induction front using List.reverseRecOn with
  | nil => exact fun _ => nofun
  | append_singleton front value ih =>
    intro hpre
    have hfront := ih ((List.prefix_append _ _).trans hpre)
    obtain ⟨-, b₂', -, hread', -⟩ := hreads _ hpre
    obtain ⟨b₂, hread⟩ := readAll_front native hb hpre hfront
    have heq := (Option.some.inj (hread'.symm.trans hread))
    have hlists : front ++ [value] = front ++ [value.truncated] :=
      Except.ok.inj (congrArg Prod.fst heq)
    have hvalue := List.head_eq_of_cons_eq (List.append_cancel_left hlists)
    intro v hv
    rcases List.mem_append.mp hv with hv | hv
    · exact hfront v hv
    · rw [List.mem_singleton.mp hv]
      exact hvalue.symm

end

/--
**Values of a variable width are read back if and only if `ReadAux` takes all of their groups**, which
are one of a `uint32_t` and two of a `uint64_t`, and the first node has room for them, or for a block.
-/
theorem varintRoundTrip_iff (heap : Nat → Nat → Byte) (first : Nat) {B : Nat} (hB : 0 < B)
    (native : Endian) (values : List Varint) :
    VarintRoundTrip heap first B native values ↔
      min B (values.map Varint.size).sum ≤ first ∧
      (∀ value, .uint32 value ∈ values → value.toNat < 2 ^ 7) ∧
      (∀ value, .uint64 value ∈ values → value.toNat < 2 ^ 14) := by
  have hiff : VarintRoundTrip heap first B native values ↔
      min B (values.flatMap Varint.bytes).length ≤ first ∧ ∀ value ∈ values, value.truncated = value :=
    ⟨fun h => ⟨h.room hB, h.truncated hB⟩, fun h => varintRoundTrip_of_truncated native hB h.2 h.1⟩
  rw [hiff, Varint.length_flatMap_bytes]
  refine and_congr_right fun _ => ⟨fun h => ?_, ?_⟩
  · exact ⟨fun value hv => (Varint.truncated_eq_iff _).mp (h _ hv),
      fun value hv => (Varint.truncated_eq_iff _).mp (h _ hv)⟩
  · rintro ⟨h32, h64⟩ value hv
    rw [Varint.truncated_eq_iff]
    cases value with
    | uint32 value => exact h32 value hv
    | uint64 value => exact h64 value hv

/-- In blocks of three bytes. -/
theorem varintRoundTrip_threeBytes :
    VarintRoundTrip (fun _ _ => 0) 3 3 .little [.uint64 300, .uint32 127, .uint64 16383] ↔
      min 3 ([Varint.uint64 300, .uint32 127, .uint64 16383].map Varint.size).sum ≤ 3 ∧
      (∀ value, .uint32 value ∈ [Varint.uint64 300, .uint32 127, .uint64 16383] →
        value.toNat < 2 ^ 7) ∧
      (∀ value, .uint64 value ∈ [Varint.uint64 300, .uint32 127, .uint64 16383] →
        value.toNat < 2 ^ 14) :=
  varintRoundTrip_iff (fun _ _ => 0) 3 (by decide) .little [.uint64 300, .uint32 127, .uint64 16383]

/-- Of 128 the first of two groups is read, which is zero. -/
theorem not_varintRoundTrip : ¬ VarintRoundTrip (fun _ _ => 0) 8 8 .little [.uint32 128] := by
  intro h
  have hvalue := h.truncated (by decide) (.uint32 128) List.mem_cons_self
  revert hvalue
  decide

end Nemo.ByteArray
