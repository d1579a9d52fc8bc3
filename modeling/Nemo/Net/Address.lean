import Nemo.Infra.Bytes

/-!
# Addresses

The addresses of `src/net/address.h`, as they are stored: the port of both kinds and the four bytes of an IPv4
address are words in network order, an IPv6 address is sixteen bytes.
-/

namespace Nemo.Net

open Infra

/-- `ByteSwapOnLittleEndian`, on a machine with the order `native`. -/
def byteSwapOnLittleEndian (native : Endian) {k : Nat} (value : Word k) : Word k :=
  if native = .little then byteSwap value else value

/-- `sockaddr_in` -/
structure Ipv4Address where
  sinPort : Word 2
  sAddr : Word 4
  deriving DecidableEq, Repr

/-- `sockaddr_in6` -/
structure Ipv6Address where
  sin6Port : Word 2
  s6Addr : Fin 16 → UInt8

/-- The constructor with a port and an address. -/
def Ipv4Address.ofAddress (native : Endian) (address : Word 4) (port : Word 2) : Ipv4Address where
  sinPort := byteSwapOnLittleEndian native port
  sAddr := byteSwapOnLittleEndian native address

/-- The constructor with a port and sixteen bytes. -/
def Ipv6Address.ofAddress (native : Endian) (address : Fin 16 → UInt8) (port : Word 2) : Ipv6Address where
  sin6Port := byteSwapOnLittleEndian native port
  s6Addr := address

/-- The address as a number, as `dump` reads it. -/
def Ipv4Address.address (native : Endian) (x : Ipv4Address) : Word 4 :=
  byteSwapOnLittleEndian native x.sAddr

/-- A bit of the address, counted from the top. -/
def Ipv6Address.bit (x : Ipv6Address) (i : Fin 128) : Bool :=
  (x.s6Addr ⟨i / 8, by omega⟩).toBitVec.getMsbD (i % 8)

theorem Ipv6Address.bit_byte (x : Ipv6Address) (q : Fin 16) {i : Nat} (hi : i < 8) :
    x.bit ⟨8 * q + i, by omega⟩ = (x.s6Addr q).toBitVec.getMsbD i := by
  have hdiv : (8 * q + i) / 8 = (q : Nat) := by omega
  have hmod : (8 * q + i) % 8 = i := by omega
  unfold bit
  simp only [hdiv, hmod]

/-- Every bit is a bit of a byte. -/
theorem Ipv6Address.exists_byte (i : Fin 128) : ∃ (q : Fin 16) (r : Nat) (hr : r < 8), i = ⟨8 * q + r, by omega⟩ :=
  ⟨⟨i / 8, by omega⟩, i % 8, Nat.mod_lt _ (by decide), Fin.ext (Nat.div_add_mod _ 8).symm⟩

section

variable (native : Endian) {k : Nat} (x y : Word k)

theorem byteSwapOnLittleEndian_twice :
    byteSwapOnLittleEndian native (byteSwapOnLittleEndian native x) = x := by
  unfold byteSwapOnLittleEndian
  split
  · exact byteSwap_byteSwap x
  · rfl

theorem byteSwapOnLittleEndian_and : byteSwapOnLittleEndian native (x &&& y) =
    byteSwapOnLittleEndian native x &&& byteSwapOnLittleEndian native y := by
  unfold byteSwapOnLittleEndian
  split
  · exact byteSwap_and x y
  · rfl

theorem byteSwapOnLittleEndian_or : byteSwapOnLittleEndian native (x ||| y) =
    byteSwapOnLittleEndian native x ||| byteSwapOnLittleEndian native y := by
  unfold byteSwapOnLittleEndian
  split
  · exact byteSwap_or x y
  · rfl

theorem byteSwapOnLittleEndian_not :
    byteSwapOnLittleEndian native (~~~x) = ~~~byteSwapOnLittleEndian native x := by
  unfold byteSwapOnLittleEndian
  split
  · exact byteSwap_not x
  · rfl

theorem address_ofAddress (address : Word 4) (port : Word 2) :
    (Ipv4Address.ofAddress native address port).address native = address :=
  byteSwapOnLittleEndian_twice native address

end

end Nemo.Net
