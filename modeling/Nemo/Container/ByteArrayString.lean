import Mathlib.Algebra.Order.BigOperators.Group.List
import Nemo.Container.ByteArrayVarint

/-!
# Strings

`writeFixedString16`, `writeFixedString32`, `writeFixedString64` and `writeVariantStringint`, each with
the function that reads what it writes. A string is the list of its bytes.

`writeFixedString64` writes a length of four bytes, and `readFixedString64` reads one of eight.
`writeVariantStringint` writes a length of two or four bytes, and `readVariantStringint` reads one of a
variable width. Their strings are not read back: the bytes that are taken do not add up
(`Consumes.all`).

`stringRoundTrip_iff` — for strings that fit, only the first two pairs are a round trip.
-/

namespace Nemo.ByteArray

open Infra

section

variable (native endian : Endian)

/-! ## The functions -/

/-- A length of `k` bytes, and as many bytes of the string as it says. -/
def writeSized (k : Nat) (value : List Byte) (b : ByteArray) : Option ByteArray :=
  let size : Word k := BitVec.ofNat (8 * k) value.length
  (writeFixed native endian size b).bind fun b => b.write (value.take size.toNat)

def writeFixedString16 : List Byte → ByteArray → Option ByteArray := writeSized native endian 2

def writeFixedString32 : List Byte → ByteArray → Option ByteArray := writeSized native endian 4

/-- The length is cast to a `uint32_t`. -/
def writeFixedString64 : List Byte → ByteArray → Option ByteArray := writeSized native endian 4

def writeVariantStringint (value : List Byte) (b : ByteArray) : Option ByteArray :=
  if value.length ≤ 0xFFFF then writeFixedString16 native endian value b
  else if value.length ≤ 0xFFFFFFFF then writeFixedString32 native endian value b
  else writeFixedString64 native endian value b

/-- The string is resized to the length first, which throws as well if there is no memory for it. -/
def readFixedString16 : Reader (List Byte) := do
  let len ← readFixedUint16 native endian
  reading len.toNat

def readFixedString32 : Reader (List Byte) := do
  let len ← readFixedUint32 native endian
  reading len.toNat

def readFixedString64 : Reader (List Byte) := do
  let len ← readFixedUint64 native endian
  reading len.toNat

def readVariantStringint : Reader (List Byte) := do
  let len ← readUint64 native
  reading len.toNat

/-! ## Their bytes -/

/-- What `writeSized` appends. -/
def sizedBytes (k : Nat) (value : List Byte) : List Byte :=
  bytesOf endian (BitVec.ofNat (8 * k) value.length : Word k) ++
    value.take (BitVec.ofNat (8 * k) value.length : Word k).toNat

theorem writes_writeSized (k : Nat) (value : List Byte) :
    Writes (writeSized native endian k value) (sizedBytes endian k value) :=
  (writes_writeFixed native endian _).bind (writes_write _)

theorem toNat_size {k : Nat} {value : List Byte} (h : value.length < 256 ^ k) :
    (BitVec.ofNat (8 * k) value.length : Word k).toNat = value.length := by
  rw [BitVec.toNat_ofNat, Nat.pow_mul]
  exact Nat.mod_eq_of_lt h

theorem sizedBytes_eq {k : Nat} {value : List Byte} (h : value.length < 256 ^ k) :
    sizedBytes endian k value = bytesOf endian (BitVec.ofNat (8 * k) value.length : Word k) ++ value := by
  rw [sizedBytes, toNat_size h, List.take_length]

theorem length_sizedBytes_le (k : Nat) (value : List Byte) :
    (sizedBytes endian k value).length ≤ k + value.length := by
  rw [sizedBytes, List.length_append, length_bytesOf, List.length_take]
  omega

theorem length_sizedBytes {k : Nat} {value : List Byte} (h : value.length < 256 ^ k) :
    (sizedBytes endian k value).length = k + value.length := by
  rw [sizedBytes_eq endian h, List.length_append, length_bytesOf]

/-- A string is read back behind a length of the same width. -/
theorem reads_sized {α : Type} {k : Nat} (ofWord : Word k → α) (toNat : α → Nat)
    (hnat : ∀ size, toNat (ofWord size) = size.toNat) {value : List Byte}
    (h : value.length < 256 ^ k) :
    Reads (do let len ← ofWord <$> readFixedAux native endian k; reading (toNat len))
      (sizedBytes endian k value) value := by
  have hlen := (reads_readFixedAux native endian (BitVec.ofNat (8 * k) value.length : Word k)).map ofWord
  have hread := Reads.reading value
  rw [← toNat_size h, ← hnat] at hread
  rw [sizedBytes_eq endian h]
  exact hlen.bind hread

theorem reads_readFixedString16 {value : List Byte} (h : value.length < 256 ^ 2) :
    Reads (readFixedString16 native endian) (sizedBytes endian 2 value) value :=
  reads_sized native endian (k := 2) UInt16.ofBitVec UInt16.toNat (fun _ => rfl) h

theorem reads_readFixedString32 {value : List Byte} (h : value.length < 256 ^ 4) :
    Reads (readFixedString32 native endian) (sizedBytes endian 4 value) value :=
  reads_sized native endian (k := 4) UInt32.ofBitVec UInt32.toNat (fun _ => rfl) h

/-! ## What the others take -/

theorem consumes_readFixedAux (k : Nat) :
    Consumes (readFixedAux native endian k) fun _ n => n = k := by
  refine ((Consumes.reading k).bind fun bytes => Consumes.pure _).mono ?_
  rintro value n ⟨bytes, m, l, ⟨-, rfl⟩, ⟨-, rfl⟩, rfl⟩
  rfl

theorem consumes_readFixedUint8 : Consumes (readFixedUint8 native) fun _ n => n = 1 := by
  refine ((Consumes.reading 1).bind fun bytes => Consumes.pure _).mono ?_
  rintro value n ⟨bytes, m, l, ⟨-, rfl⟩, ⟨-, rfl⟩, rfl⟩
  rfl

/-- A string, after a length of eight bytes. -/
theorem consumes_readFixedString64 :
    Consumes (readFixedString64 native endian) fun value n => n = 8 + value.length := by
  refine (((consumes_readFixedAux native endian 8).map UInt64.ofBitVec).bind fun len =>
    Consumes.reading len.toNat).mono ?_
  rintro value n ⟨len, m, l, ⟨-, -, rfl⟩, ⟨hlen, rfl⟩, rfl⟩
  rw [hlen]

/-- The loop of `ReadAux` takes at most a byte in each of its turns. -/
theorem consumes_readAux (size k : Nat) {a i : Nat} (ha : a < 2 ^ i) (hsize : size ≤ i + 7 * k)
    (hwidth : i + 7 * k ≤ 32) :
    Consumes (readAux native size a i) fun value n => n ≤ k ∧ value < 2 ^ (i + 7 * k) := by
  -- a value does not outgrow the groups that are left
  have hgrow : ∀ {x j j'}, x < 2 ^ j → j ≤ j' → x < 2 ^ j' := fun hx hj =>
    Nat.lt_of_lt_of_le hx (Nat.pow_le_pow_right (by decide) hj)
  induction k generalizing a i with
  | zero =>
    rw [readAux, if_neg (by omega)]
    refine (Consumes.pure a).mono ?_
    rintro value n ⟨rfl, rfl⟩
    exact ⟨Nat.le_refl 0, ha⟩
  | succ k ih =>
    rw [readAux]
    split
    · have hor : ∀ group < 128, a ||| (group <<< i) % 2 ^ 32 < 2 ^ (i + 7) := by
        intro group hgroup
        rw [or_group ha hgroup (by omega)]
        exact add_group_lt ha hgroup
      have hturn : ∀ tmp : UInt8, Consumes (if tmp < 0x80 then pure (a ||| (tmp.toNat <<< i) % 2 ^ 32)
          else readAux native size (a ||| ((tmp &&& 0x7F).toNat <<< i) % 2 ^ 32) (i + 7))
          fun value n => n ≤ k ∧ value < 2 ^ (i + 7 * (k + 1)) := by
        intro tmp
        split
        · next htmp =>
          refine (Consumes.pure _).mono ?_
          rintro value n ⟨rfl, rfl⟩
          exact ⟨Nat.zero_le k, hgrow (hor _ (UInt8.lt_iff_toNat_lt.mp htmp)) (by omega)⟩
        · have hmask : (tmp &&& 0x7F).toNat < 128 := by
            rw [UInt8.toNat_and]
            exact Nat.lt_succ_of_le Nat.and_le_right
          refine (ih (hor _ hmask) (by omega) (by omega)).mono ?_
          rintro value n ⟨hn, hvalue⟩
          exact ⟨hn, hgrow hvalue (by omega)⟩
      refine ((consumes_readFixedUint8 native).bind hturn).mono ?_
      rintro value n ⟨tmp, m, l, rfl, ⟨hl, hvalue⟩, rfl⟩
      exact ⟨by omega, hvalue⟩
    · refine (Consumes.pure a).mono ?_
      rintro value n ⟨rfl, rfl⟩
      exact ⟨Nat.zero_le _, hgrow ha (Nat.le_add_right _ _)⟩

/-- A string, after a length of at most two bytes. -/
theorem consumes_readVariantStringint :
    Consumes (readVariantStringint native) fun value n =>
      value.length < 2 ^ 14 ∧ n ≤ 2 + value.length := by
  have hlen : Consumes (readUint64 native) fun len n => n ≤ 2 ∧ len.toNat < 2 ^ 14 := by
    refine ((consumes_readAux native 8 2 (Nat.two_pow_pos 0) (by decide) (by decide)).map
      UInt64.ofNat).mono ?_
    rintro len n ⟨value, rfl, hn, hlt⟩
    refine ⟨hn, ?_⟩
    rw [UInt64.toNat_ofNat', Nat.mod_eq_of_lt (by omega)]
    exact hlt
  refine (hlen.bind fun len => Consumes.reading len.toNat).mono ?_
  rintro value n ⟨len, m, l, ⟨hm, hlt⟩, ⟨hlen, rfl⟩, rfl⟩
  rw [hlen]
  exact ⟨hlt, Nat.add_le_add_right hm _⟩

/-- In front of the two bytes `x` and `y`, `readUint64` reads one of them or both. -/
theorem reads_readUint64 (x y : UInt8) :
    x.toNat < 128 ∧ Reads (readUint64 native) [x] (UInt64.ofNat x.toNat) ∨
      128 ≤ x.toNat ∧ Reads (readUint64 native) [x, y]
        (UInt64.ofNat (x.toNat % 128 + 128 * (y.toNat % 128))) := by
  have hmask : ∀ tmp : UInt8, (tmp &&& 0x7F).toNat = tmp.toNat % 128 := fun tmp => by
    rw [UInt8.toNat_and]
    exact Nat.and_two_pow_sub_one_eq_mod tmp.toNat 7
  have hmod : ∀ n, n % 128 < 128 := fun n => Nat.mod_lt n (by decide)
  by_cases hx : x < 0x80
  · have hlt : x.toNat < 128 := UInt8.lt_iff_toNat_lt.mp hx
    have hread := reads_readAux_last native 8 (a := 0) (i := 0) (by decide) hx
    rw [or_group (Nat.two_pow_pos 0) hlt (by decide), Nat.pow_zero, Nat.one_mul, Nat.zero_add] at hread
    exact .inl ⟨hlt, hread.map UInt64.ofNat⟩
  · have hge : 128 ≤ x.toNat := Nat.not_lt.mp fun hlt => hx (UInt8.lt_iff_toNat_lt.mpr hlt)
    have hlow : x.toNat % 128 < 2 ^ 7 := hmod _
    -- the second turn is the last one, whether or not `y` has the high bit
    have hsecond : Reads (readAux native 8 (x.toNat % 128) 7) [y]
        (x.toNat % 128 + 128 * (y.toNat % 128)) := by
      by_cases hy : y < 0x80
      · have hlt : y.toNat < 128 := UInt8.lt_iff_toNat_lt.mp hy
        have hread := reads_readAux_last native 8 (a := x.toNat % 128) (i := 7) (by decide) hy
        rw [or_group hlow hlt (by decide)] at hread
        rwa [Nat.mod_eq_of_lt hlt]
      · refine reads_readAux_more native 8 (by decide) hy ?_
        rw [hmask, or_group hlow (hmod _) (by decide), readAux, if_neg (by decide)]
        exact Reads.pure _
    have hread : Reads (readAux native 8 0 0) [x, y] (x.toNat % 128 + 128 * (y.toNat % 128)) := by
      refine reads_readAux_more native 8 (by decide) hx ?_
      rw [hmask, or_group (Nat.two_pow_pos 0) (hmod _) (by decide), Nat.pow_zero, Nat.one_mul,
        Nat.zero_add]
      exact hsecond
    exact .inr ⟨hge, hread.map UInt64.ofNat⟩

/-- The two bytes of a length. -/
theorem bytesOf_two {n : Nat} (h : n < 2 ^ 16) :
    ∃ x y : UInt8, bytesOf endian (BitVec.ofNat (8 * 2) n : Word 2) = [x, y] ∧
      (n = x.toNat + 256 * y.toNat ∨ n = y.toNat + 256 * x.toNat) := by
  have hn : (BitVec.ofNat (8 * 2) n : Word 2).toNat = n := by
    rw [BitVec.toNat_ofNat]
    exact Nat.mod_eq_of_lt h
  have hsum : n = (UInt8.ofNat n).toNat + 256 * (UInt8.ofNat (n / 256)).toNat := by
    rw [UInt8.toNat_ofNat', UInt8.toNat_ofNat']
    omega
  cases endian with
  | little =>
    refine ⟨UInt8.ofNat n, UInt8.ofNat (n / 256), ?_, .inl hsum⟩
    rw [bytesOf, hn]
    rfl
  | big =>
    refine ⟨UInt8.ofNat (n / 256), UInt8.ofNat n, ?_, .inr hsum⟩
    rw [bytesOf, hn]
    rfl

/-- If a string is read in front of its length of two bytes, only one of these was taken as the length. -/
theorem position_of_readVariantStringint {b b' : ByteArray} {ws value : List Byte} {r : Nat}
    (h : Holds b ws r) (hlen : value.length < 2 ^ 14)
    (hpre : bytesOf endian (BitVec.ofNat (8 * 2) value.length : Word 2) <+: ws.drop r)
    (hread : readVariantStringint native b = some (.ok value, b')) :
    b'.position = r + 1 + value.length ∧ Stored b' ws ∧ Placed b' := by
  obtain ⟨x, y, hbytes, hsum⟩ := bytesOf_two endian (n := value.length) (by omega)
  have hx := x.toNat_lt
  have hy := y.toNat_lt
  rw [hbytes] at hpre
  obtain ⟨len, b₁, hlenRead, hvalueRead⟩ := bind_eq_ok hread
  rcases reads_readUint64 native x y with ⟨-, hone⟩ | ⟨hge, htwo⟩
  · obtain ⟨b₂, hread₂, h₂⟩ := hone b ws r h (.trans ⟨[y], rfl⟩ hpre)
    cases hlenRead.symm.trans hread₂
    obtain ⟨hsize, hpos, hp'⟩ := position_of_read h₂.stored h₂.placed hvalueRead
    refine ⟨?_, stored_of_read h₂.stored hvalueRead, hp'⟩
    rw [hpos, h₂.position_eq, hsize]
    rfl
  · -- two groups make another number than two bytes
    obtain ⟨b₂, hread₂, h₂⟩ := htwo b ws r h hpre
    cases hlenRead.symm.trans hread₂
    obtain ⟨hsize, -⟩ := position_of_read h₂.stored h₂.placed hvalueRead
    rw [UInt64.toNat_ofNat'] at hsize
    omega

end

/-! ## Lists of strings -/

/-- The pairs of functions. -/
inductive StringCodec
  | fixed16 | fixed32 | fixed64 | variant

namespace StringCodec

variable (native endian : Endian)

def write : StringCodec → List Byte → ByteArray → Option ByteArray
  | fixed16 => writeFixedString16 native endian
  | fixed32 => writeFixedString32 native endian
  | fixed64 => writeFixedString64 native endian
  | variant => writeVariantStringint native endian

def read : StringCodec → Reader (List Byte)
  | fixed16 => readFixedString16 native endian
  | fixed32 => readFixedString32 native endian
  | fixed64 => readFixedString64 native endian
  | variant => readVariantStringint native

/-- The size of the string fits the type of the length. -/
def Fits : StringCodec → List Byte → Prop
  | fixed16, value => value.length < 2 ^ 16
  | fixed32, value => value.length < 2 ^ 32
  | fixed64, _ => True
  | variant, _ => True

/-- What the pair writes. -/
def bytes : StringCodec → List Byte → List Byte
  | fixed16, value => sizedBytes endian 2 value
  | fixed32, value => sizedBytes endian 4 value
  | fixed64, value => sizedBytes endian 4 value
  | variant, value =>
    if value.length ≤ 0xFFFF then sizedBytes endian 2 value else sizedBytes endian 4 value

theorem writes_write (codec : StringCodec) (value : List Byte) :
    Writes (write native endian codec value) (bytes endian codec value) := by
  cases codec with
  | fixed16 => exact writes_writeSized native endian 2 value
  | fixed32 => exact writes_writeSized native endian 4 value
  | fixed64 => exact writes_writeSized native endian 4 value
  | variant =>
    show Writes (writeVariantStringint native endian value)
      (if value.length ≤ 0xFFFF then sizedBytes endian 2 value else sizedBytes endian 4 value)
    unfold writeVariantStringint
    split
    · exact writes_writeSized native endian 2 value
    · split
      · exact writes_writeSized native endian 4 value
      · exact writes_writeSized native endian 4 value

end StringCodec

/-- The strings are written into a fresh array, and read back until nothing is left to read. -/
def StringRoundTrip (heap : Nat → Nat → Byte) (first B : Nat) (native endian : Endian)
    (codec : StringCodec) (values : List (List Byte)) : Prop :=
  ∃ b, writeAll (codec.write native endian) values (new heap first B) = some b ∧
    ∃ b', readAll (fun _ => codec.read native endian) (values.map fun _ => ()) b =
        some (.ok values, b') ∧
      b'.position = b'.getTotalBytes

section

variable {heap : Nat → Nat → Byte} {first B : Nat} {native endian : Endian} {values : List (List Byte)}

theorem stringRoundTrip_of_reads (hB : 0 < B) {codec : StringCodec}
    (h : ∀ value ∈ values, Reads (codec.read native endian) (codec.bytes endian value) value)
    (hroom : min B (values.flatMap (codec.bytes endian)).length ≤ first) :
    StringRoundTrip heap first B native endian codec values := by
  obtain ⟨b, hwrite, hb⟩ := writeAll_new heap hB (fun value (_ : value ∈ values) =>
    codec.writes_write native endian value) hroom
  have hall : Reads (readAll (fun _ => codec.read native endian) (values.map fun _ => ()))
      (values.flatMap (codec.bytes endian)) (values.map fun value => value) :=
    Reads.all values h
  rw [List.map_id'] at hall
  obtain ⟨b', hread, hb'⟩ := hall b _ 0 hb (List.prefix_refl _)
  refine ⟨b, hwrite, b', hread, ?_⟩
  rw [hb'.position_eq, hb'.getTotalBytes_eq, Nat.zero_add]

/-- What is read back had room. -/
theorem StringRoundTrip.room (hB : 0 < B) {codec : StringCodec}
    (h : StringRoundTrip heap first B native endian codec values) :
    min B (values.flatMap (codec.bytes endian)).length ≤ first := by
  obtain ⟨b, hwrite, -⟩ := h
  exact room_of_writeAll hB (fun value _ => codec.writes_write native endian value) hwrite

/-- A round trip has taken the bytes of all strings. -/
theorem StringRoundTrip.consumed (hB : 0 < B) {codec : StringCodec} {P : List Byte → Nat → Prop}
    (h : StringRoundTrip heap first B native endian codec values)
    (hconsumes : Consumes (codec.read native endian) P) :
    ∃ ns, List.Forall₂ P values ns ∧ ns.sum = (values.flatMap (codec.bytes endian)).length := by
  have hroom := h.room hB
  obtain ⟨b, hwrite, b', hread, hend⟩ := h
  obtain ⟨b₁, hwrite', hb⟩ := writeAll_new heap hB (fun value (_ : value ∈ values) =>
    codec.writes_write native endian value) hroom
  obtain rfl : b₁ = b := Option.some.inj (hwrite'.symm.trans hwrite)
  obtain ⟨n, ⟨ns, hns, rfl⟩, hpos, hb', hp'⟩ :=
    Consumes.all (fun _ => hconsumes) _ b₁ _ values b' hb.stored hb.placed hread
  refine ⟨ns, hns, ?_⟩
  rw [← hb.getTotalBytes_eq, hb.stored.getTotalBytes_eq, ← hb'.getTotalBytes_eq, ← hend, hpos,
    hb.position_eq, Nat.zero_add]

/-- A length of eight bytes is read where one of four was written. -/
theorem StringRoundTrip.nil_of_fixed64 (hB : 0 < B)
    (h : StringRoundTrip heap first B native endian .fixed64 values) : values = [] := by
  obtain ⟨ns, hns, hsum⟩ := h.consumed hB (consumes_readFixedString64 native endian)
  have htaken : values.map (fun value => 8 + value.length) = ns := by
    rw [← List.forall₂_eq_eq_eq, List.forall₂_map_left_iff]
    exact hns.imp fun _ _ hn => hn.symm
  by_contra hne
  have hlt : (values.map fun value => (StringCodec.bytes endian .fixed64 value).length).sum <
      (values.map fun value => 8 + value.length).sum := by
    refine List.sum_lt_sum_of_ne_nil hne _ _ fun value _ => ?_
    have hle := length_sizedBytes_le endian 4 value
    show (sizedBytes endian 4 value).length < _
    omega
  rw [List.length_flatMap, ← htaken] at hsum
  omega

/-- The first length takes one byte instead of two, and the others at most two. -/
theorem StringRoundTrip.nil_of_variant (hB : 0 < B)
    (h : StringRoundTrip heap first B native endian .variant values) : values = [] := by
  cases values with
  | nil => rfl
  | cons value rest =>
    exfalso
    obtain ⟨ns, hns, -⟩ := h.consumed hB (consumes_readVariantStringint native)
    obtain ⟨hshort, -⟩ := (List.forall₂_and_left _ _).mp hns
    have hbytes : ∀ v ∈ value :: rest, StringCodec.bytes endian .variant v = sizedBytes endian 2 v := by
      intro v hv
      have hlt := hshort v hv
      exact if_pos (by omega)
    have hlen : ∀ v ∈ value :: rest, (StringCodec.bytes endian .variant v).length = 2 + v.length := by
      intro v hv
      have hlt := hshort v hv
      rw [hbytes v hv, length_sizedBytes endian (by omega)]
    have hroom := h.room hB
    obtain ⟨b, hwrite, b', hread, hend⟩ := h
    obtain ⟨b₁, hwrite', hb⟩ := writeAll_new heap hB (fun v (_ : v ∈ value :: rest) =>
      StringCodec.writes_write native endian .variant v) hroom
    obtain rfl : b₁ = b := Option.some.inj (hwrite'.symm.trans hwrite)
    obtain ⟨value', b₂, hfirst, hmore⟩ := bind_eq_ok hread
    obtain ⟨rest', b₃, hothers, hpure⟩ := bind_eq_ok hmore
    cases hpure
    have hpre : bytesOf endian (BitVec.ofNat (8 * 2) value.length : Word 2) <+:
        ((value :: rest).flatMap (StringCodec.bytes endian .variant)).drop 0 := by
      have hlt := hshort value List.mem_cons_self
      rw [List.drop_zero, List.flatMap_cons, hbytes value List.mem_cons_self,
        sizedBytes_eq endian (by omega), List.append_assoc]
      exact List.prefix_append _ _
    obtain ⟨hpos₂, hb₂, hp₂⟩ := position_of_readVariantStringint native endian hb
      (hshort value List.mem_cons_self) hpre hfirst
    obtain ⟨n, ⟨ms, hms, rfl⟩, hpos, hb', -⟩ := Consumes.all
      (fun _ => consumes_readVariantStringint native) _ b₂ _ rest b' hb₂ hp₂ hothers
    have hle : ms.sum ≤ (rest.map fun v => 2 + v.length).sum :=
      List.Forall₂.sum_le_sum (List.forall₂_map_right_iff.mpr
        (((List.forall₂_and_left _ _).mp hms).2.flip))
    have htotal : (rest.map fun v => (StringCodec.bytes endian .variant v).length) =
        rest.map fun v => 2 + v.length :=
      List.map_congr_left fun v hv => hlen v (List.mem_cons_of_mem _ hv)
    rw [hpos, hpos₂, hb'.getTotalBytes_eq, List.flatMap_cons, List.length_append, List.length_flatMap,
      htotal, hlen value List.mem_cons_self] at hend
    omega

end

/--
**Of strings that fit, the pairs for 16 and for 32 bits read what they write**, if and only if the first
node has room for the lengths and the strings, or for a block; the other two pairs read back the empty
list only.
-/
theorem stringRoundTrip_iff (heap : Nat → Nat → Byte) (first : Nat) {B : Nat} (hB : 0 < B)
    (native endian : Endian) (codec : StringCodec) (values : List (List Byte))
    (hfits : ∀ value ∈ values, codec.Fits value) :
    StringRoundTrip heap first B native endian codec values ↔
      (codec = .fixed16 ∧ min B (values.map fun value => 2 + value.length).sum ≤ first) ∨
      (codec = .fixed32 ∧ min B (values.map fun value => 4 + value.length).sum ≤ first) ∨
      values = [] := by
  have hnil : ∀ codec, StringRoundTrip heap first B native endian codec [] :=
    fun codec => stringRoundTrip_of_reads hB nofun (Nat.le_trans (Nat.min_le_right _ _) (Nat.zero_le _))
  have hsized : ∀ k, (∀ value ∈ values, value.length < 256 ^ k) →
      (values.flatMap (sizedBytes endian k)).length = (values.map fun value => k + value.length).sum := by
    intro k h
    rw [List.length_flatMap]
    congr 1
    exact List.map_congr_left fun value hv => length_sizedBytes endian (h value hv)
  cases codec with
  | fixed16 =>
    rw [← hsized 2 hfits]
    constructor
    · exact fun h => .inl ⟨rfl, h.room hB⟩
    · rintro (⟨-, hroom⟩ | ⟨h, -⟩ | rfl)
      · exact stringRoundTrip_of_reads hB
          (fun value hv => reads_readFixedString16 native endian (hfits value hv)) hroom
      · cases h
      · exact hnil _
  | fixed32 =>
    rw [← hsized 4 hfits]
    constructor
    · exact fun h => .inr (.inl ⟨rfl, h.room hB⟩)
    · rintro (⟨h, -⟩ | ⟨-, hroom⟩ | rfl)
      · cases h
      · exact stringRoundTrip_of_reads hB
          (fun value hv => reads_readFixedString32 native endian (hfits value hv)) hroom
      · exact hnil _
  | fixed64 =>
    constructor
    · exact fun h => .inr (.inr (h.nil_of_fixed64 hB))
    · rintro (⟨h, -⟩ | ⟨h, -⟩ | rfl)
      · cases h
      · cases h
      · exact hnil _
  | variant =>
    constructor
    · exact fun h => .inr (.inr (h.nil_of_variant hB))
    · rintro (⟨h, -⟩ | ⟨h, -⟩ | rfl)
      · cases h
      · cases h
      · exact hnil _

/-- Two strings in blocks of three bytes. -/
theorem stringRoundTrip_threeBytes :
    StringRoundTrip (fun _ _ => 0) 3 3 .little .big .fixed16 [[104, 105], []] ↔
      (StringCodec.fixed16 = .fixed16 ∧
        min 3 (([[104, 105], []] : List (List Byte)).map fun value => 2 + value.length).sum ≤ 3) ∨
      (StringCodec.fixed16 = .fixed32 ∧
        min 3 (([[104, 105], []] : List (List Byte)).map fun value => 4 + value.length).sum ≤ 3) ∨
      ([[104, 105], []] : List (List Byte)) = [] :=
  stringRoundTrip_iff (fun _ _ => 0) 3 (by decide) .little .big .fixed16 [[104, 105], []]
    (by simp [StringCodec.Fits])

/-- Even of the empty string the length is not read as it was written. -/
theorem not_stringRoundTrip :
    ¬ ∀ (codec : StringCodec) (values : List (List Byte)), (∀ value ∈ values, codec.Fits value) →
      StringRoundTrip (fun _ _ => 0) 8 8 .little .little codec values := by
  intro h
  have hround := h .variant [[]] (fun _ _ => trivial)
  exact List.cons_ne_nil _ _ (hround.nil_of_variant (by decide))

end Nemo.ByteArray
