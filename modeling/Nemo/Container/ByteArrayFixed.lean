import Nemo.Container.ByteArrayReader
import Nemo.Infra.Bytes

/-!
# Values of a fixed width

`writeFixed`, `write` for `float` and `double`, and the functions that read them. `native` is the order
of bytes of the machine, `endian` the one that is set. A `float` or a `double` is its bits.

`fixedRoundTrip_iff` — what is written into a fresh array is read back, across any blocks, if and only if
the first node has room.
-/

namespace Nemo.ByteArray

open Infra

section

variable (native endian : Endian)

/-! ## The functions -/

/-- The overloads of `writeFixed` for more than one byte. -/
def writeFixed {k : Nat} (value : Word k) (b : ByteArray) : Option ByteArray :=
  let value := if endian ≠ native then byteSwap value else value
  b.write (bytesOf native value)

def writeFixedInt8 (value : Int8) (b : ByteArray) : Option ByteArray :=
  b.write (bytesOf (k := 1) native value.toBitVec)

def writeFixedUint8 (value : UInt8) (b : ByteArray) : Option ByteArray :=
  b.write (bytesOf (k := 1) native value.toBitVec)

def writeFixedInt16 (value : Int16) : ByteArray → Option ByteArray :=
  writeFixed native endian (k := 2) value.toBitVec

def writeFixedUint16 (value : UInt16) : ByteArray → Option ByteArray :=
  writeFixed native endian (k := 2) value.toBitVec

def writeFixedInt32 (value : Int32) : ByteArray → Option ByteArray :=
  writeFixed native endian (k := 4) value.toBitVec

def writeFixedUint32 (value : UInt32) : ByteArray → Option ByteArray :=
  writeFixed native endian (k := 4) value.toBitVec

def writeFixedInt64 (value : Int64) : ByteArray → Option ByteArray :=
  writeFixed native endian (k := 8) value.toBitVec

def writeFixedUint64 (value : UInt64) : ByteArray → Option ByteArray :=
  writeFixed native endian (k := 8) value.toBitVec

def writeFloat (value : UInt32) : ByteArray → Option ByteArray := writeFixedUint32 native endian value

def writeDouble (value : UInt64) : ByteArray → Option ByteArray :=
  writeFixedUint64 native endian value

def readFixedInt8 : Reader Int8 := do
  let value ← reading 1
  return .ofBitVec (wordOf 1 native value)

def readFixedUint8 : Reader UInt8 := do
  let value ← reading 1
  return .ofBitVec (wordOf 1 native value)

/-- `ReadFixedAux`, for a `T` of `k` bytes. -/
def readFixedAux (k : Nat) : Reader (Word k) := do
  let value ← reading k
  return if native = endian then wordOf k native value else byteSwap (wordOf k native value)

def readFixedInt16 : Reader Int16 := Int16.ofBitVec <$> readFixedAux native endian 2
def readFixedUint16 : Reader UInt16 := UInt16.ofBitVec <$> readFixedAux native endian 2
def readFixedInt32 : Reader Int32 := Int32.ofBitVec <$> readFixedAux native endian 4
def readFixedUint32 : Reader UInt32 := UInt32.ofBitVec <$> readFixedAux native endian 4
def readFixedInt64 : Reader Int64 := Int64.ofBitVec <$> readFixedAux native endian 8
def readFixedUint64 : Reader UInt64 := UInt64.ofBitVec <$> readFixedAux native endian 8
def readFloat : Reader UInt32 := readFixedUint32 native endian
def readDouble : Reader UInt64 := readFixedUint64 native endian

/-! ## Their bytes -/

/-- The bytes that are written are those of the order that is set. -/
theorem writes_writeFixed {k : Nat} (value : Word k) :
    Writes (writeFixed native endian value) (bytesOf endian value) := by
  have hbytes : bytesOf native (if endian ≠ native then byteSwap value else value) =
      bytesOf endian value := by
    split
    · next hne => exact bytesOf_byteSwap native endian value hne
    · next heq => rw [not_ne_iff.mp heq]
  rw [← hbytes]
  exact writes_write _

/-- A single byte is the same in both orders. -/
theorem writes_byte (value : Word 1) :
    Writes (fun b => b.write (bytesOf native value)) (bytesOf endian value) := by
  have hbytes : bytesOf native value = bytesOf endian value := by cases native <;> cases endian <;> rfl
  rw [← hbytes]
  exact writes_write _

/-- A word is read back. -/
theorem reads_readFixedAux {k : Nat} (value : Word k) :
    Reads (readFixedAux native endian k) (bytesOf endian value) value := by
  have hvalue : (if native = endian then wordOf k native (bytesOf endian value)
      else byteSwap (wordOf k native (bytesOf endian value))) = value := by
    split
    · next heq => rw [heq, wordOf_bytesOf]
    · next hne =>
      rw [← bytesOf_byteSwap native endian value (Ne.symm hne), wordOf_bytesOf, byteSwap_byteSwap]
  have hread := Reads.reading (bytesOf endian value)
  rw [length_bytesOf] at hread
  have hvalueRead := hread.bind_pure fun bytes =>
    if native = endian then wordOf k native bytes else byteSwap (wordOf k native bytes)
  rwa [hvalue] at hvalueRead

theorem reads_byte {α : Type} (ofWord : Word 1 → α) (value : Word 1) :
    Reads (do let bytes ← reading 1; return ofWord (wordOf 1 native bytes))
      (bytesOf endian value) (ofWord value) := by
  have hbytes : bytesOf endian value = bytesOf native value := by
    cases native <;> cases endian <;> rfl
  have hread := Reads.reading (bytesOf native value)
  rw [length_bytesOf] at hread
  have hvalueRead := hread.bind_pure fun bytes => ofWord (wordOf 1 native bytes)
  rw [wordOf_bytesOf] at hvalueRead
  rwa [hbytes]

end

/-! ## Lists of values -/

/-- A value of a fixed width. -/
inductive Fixed
  | int8 (value : Int8)
  | uint8 (value : UInt8)
  | int16 (value : Int16)
  | uint16 (value : UInt16)
  | int32 (value : Int32)
  | uint32 (value : UInt32)
  | int64 (value : Int64)
  | uint64 (value : UInt64)
  | float (bits : UInt32)
  | double (bits : UInt64)
  deriving DecidableEq

/-- The type of a value. -/
inductive FixedType
  | int8 | uint8 | int16 | uint16 | int32 | uint32 | int64 | uint64 | float | double

namespace Fixed

def type : Fixed → FixedType
  | int8 _ => .int8
  | uint8 _ => .uint8
  | int16 _ => .int16
  | uint16 _ => .uint16
  | int32 _ => .int32
  | uint32 _ => .uint32
  | int64 _ => .int64
  | uint64 _ => .uint64
  | float _ => .float
  | double _ => .double

variable (native endian : Endian)

/-- The overload that writes the value. -/
def write : Fixed → ByteArray → Option ByteArray
  | int8 value => writeFixedInt8 native value
  | uint8 value => writeFixedUint8 native value
  | int16 value => writeFixedInt16 native endian value
  | uint16 value => writeFixedUint16 native endian value
  | int32 value => writeFixedInt32 native endian value
  | uint32 value => writeFixedUint32 native endian value
  | int64 value => writeFixedInt64 native endian value
  | uint64 value => writeFixedUint64 native endian value
  | float bits => writeFloat native endian bits
  | double bits => writeDouble native endian bits

/-- The function that reads a value of the type. -/
def read : FixedType → Reader Fixed
  | .int8 => int8 <$> readFixedInt8 native
  | .uint8 => uint8 <$> readFixedUint8 native
  | .int16 => int16 <$> readFixedInt16 native endian
  | .uint16 => uint16 <$> readFixedUint16 native endian
  | .int32 => int32 <$> readFixedInt32 native endian
  | .uint32 => uint32 <$> readFixedUint32 native endian
  | .int64 => int64 <$> readFixedInt64 native endian
  | .uint64 => uint64 <$> readFixedUint64 native endian
  | .float => float <$> readFloat native endian
  | .double => double <$> readDouble native endian

/-- The bytes of a value. -/
def bytes : Fixed → List Byte
  | int8 value => bytesOf (k := 1) endian value.toBitVec
  | uint8 value => bytesOf (k := 1) endian value.toBitVec
  | int16 value => bytesOf (k := 2) endian value.toBitVec
  | uint16 value => bytesOf (k := 2) endian value.toBitVec
  | int32 value => bytesOf (k := 4) endian value.toBitVec
  | uint32 value => bytesOf (k := 4) endian value.toBitVec
  | int64 value => bytesOf (k := 8) endian value.toBitVec
  | uint64 value => bytesOf (k := 8) endian value.toBitVec
  | float bits => bytesOf (k := 4) endian bits.toBitVec
  | double bits => bytesOf (k := 8) endian bits.toBitVec

/-- How many they are: the size of the type. -/
def size : Fixed → Nat
  | int8 _ => 1
  | uint8 _ => 1
  | int16 _ => 2
  | uint16 _ => 2
  | int32 _ => 4
  | uint32 _ => 4
  | int64 _ => 8
  | uint64 _ => 8
  | float _ => 4
  | double _ => 8

theorem length_flatMap_bytes (values : List Fixed) :
    (values.flatMap (bytes endian)).length = (values.map size).sum := by
  rw [List.length_flatMap]
  congr 1
  exact List.map_congr_left fun value _ => by cases value <;> exact length_bytesOf _ _

theorem writes_write (value : Fixed) : Writes (write native endian value) (bytes endian value) := by
  cases value with
  | int8 value => exact writes_byte native endian value.toBitVec
  | uint8 value => exact writes_byte native endian value.toBitVec
  | int16 value => exact writes_writeFixed native endian (k := 2) value.toBitVec
  | uint16 value => exact writes_writeFixed native endian (k := 2) value.toBitVec
  | int32 value => exact writes_writeFixed native endian (k := 4) value.toBitVec
  | uint32 value => exact writes_writeFixed native endian (k := 4) value.toBitVec
  | int64 value => exact writes_writeFixed native endian (k := 8) value.toBitVec
  | uint64 value => exact writes_writeFixed native endian (k := 8) value.toBitVec
  | float bits => exact writes_writeFixed native endian (k := 4) bits.toBitVec
  | double bits => exact writes_writeFixed native endian (k := 8) bits.toBitVec

theorem reads_read (value : Fixed) :
    Reads (read native endian value.type) (bytes endian value) value := by
  cases value with
  | int8 value => exact (reads_byte native endian Int8.ofBitVec value.toBitVec).map int8
  | uint8 value => exact (reads_byte native endian UInt8.ofBitVec value.toBitVec).map uint8
  | int16 value =>
    exact ((reads_readFixedAux native endian (k := 2) value.toBitVec).map Int16.ofBitVec).map int16
  | uint16 value =>
    exact ((reads_readFixedAux native endian (k := 2) value.toBitVec).map UInt16.ofBitVec).map uint16
  | int32 value =>
    exact ((reads_readFixedAux native endian (k := 4) value.toBitVec).map Int32.ofBitVec).map int32
  | uint32 value =>
    exact ((reads_readFixedAux native endian (k := 4) value.toBitVec).map UInt32.ofBitVec).map uint32
  | int64 value =>
    exact ((reads_readFixedAux native endian (k := 8) value.toBitVec).map Int64.ofBitVec).map int64
  | uint64 value =>
    exact ((reads_readFixedAux native endian (k := 8) value.toBitVec).map UInt64.ofBitVec).map uint64
  | float bits =>
    exact ((reads_readFixedAux native endian (k := 4) bits.toBitVec).map UInt32.ofBitVec).map float
  | double bits =>
    exact ((reads_readFixedAux native endian (k := 8) bits.toBitVec).map UInt64.ofBitVec).map double

end Fixed

/-- The values are written into a fresh array and read back, and then nothing is left to read. -/
def FixedRoundTrip (heap : Nat → Nat → Byte) (first B : Nat) (native endian : Endian)
    (values : List Fixed) : Prop :=
  ∃ b, writeAll (Fixed.write native endian) values (new heap first B) = some b ∧
    ∃ b', readAll (Fixed.read native endian) (values.map Fixed.type) b = some (.ok values, b') ∧
      b'.position = b'.getTotalBytes

/-- **What is written with a fixed width is read back**, if and only if the first node has room for its bytes, or
for a block of them. -/
theorem fixedRoundTrip_iff (heap : Nat → Nat → Byte) (first : Nat) {B : Nat} (hB : 0 < B)
    (native endian : Endian) (values : List Fixed) :
    FixedRoundTrip heap first B native endian values ↔ min B (values.map Fixed.size).sum ≤ first := by
  have hwrites : ∀ value ∈ values, Writes (Fixed.write native endian value) (Fixed.bytes endian value) :=
    fun value _ => Fixed.writes_write native endian value
  rw [← Fixed.length_flatMap_bytes endian]
  constructor
  · rintro ⟨b, hwrite, -⟩
    exact room_of_writeAll hB hwrites hwrite
  · intro hroom
    obtain ⟨b, hwrite, hb⟩ := writeAll_new heap hB hwrites hroom
    obtain ⟨b', hread, hb'⟩ := Reads.all values (fun value _ => Fixed.reads_read native endian value)
      b _ 0 hb (List.prefix_refl _)
    rw [List.map_id'] at hread
    refine ⟨b, hwrite, b', hread, ?_⟩
    rw [hb'.position_eq, hb'.getTotalBytes_eq, Nat.zero_add]

/-- A double between other values, in blocks of three bytes. -/
theorem fixedRoundTrip_threeBytes :
    FixedRoundTrip (fun _ _ => 0) 3 3 .little .big [.int8 (-1), .double 0x400921FB54442D18, .uint16 513] ↔
      min 3 ([Fixed.int8 (-1), .double 0x400921FB54442D18, .uint16 513].map Fixed.size).sum ≤ 3 :=
  fixedRoundTrip_iff (fun _ _ => 0) 3 (by decide) .little .big
    [.int8 (-1), .double 0x400921FB54442D18, .uint16 513]

/-- The first node has no room for a byte. -/
theorem not_fixedRoundTrip : ¬ ∀ (heap : Nat → Nat → Byte) (first B : Nat), 0 < B →
    ∀ (native endian : Endian) (values : List Fixed), FixedRoundTrip heap first B native endian values := by
  intro h
  obtain ⟨b, hwrite, -⟩ := h (fun _ _ => 0) 0 8 (by decide) .little .little [.uint8 7]
  cases hwrite

end Nemo.ByteArray
