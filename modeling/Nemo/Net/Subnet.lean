import Nemo.Infra.Prefix
import Nemo.Net.Address

/-!
# Networks

`broadcastAddress`, `networkAddress` and `subnetMask` of `src/net/address.cc`. `CreateMask` sets the bits of the
hosts, not those of the network: `or` and `not` are right with it, `and` is not.

A result of `none` stands for a step that the language leaves undefined: a shift by the width of `int`, a
subtraction below the least `int`, an index behind the end of an array. A `nullptr` is a `none` inside of it.
-/

namespace Nemo.Net

open Infra
open Infra.Prefix
open Function (update)

/-- `CreateMask<T>` for a type of `k` bytes. The literal `1` is an `int`, the shift a `size_t`. -/
def createMask (k : Nat) (bits : UInt32) : Option (Word k) :=
  let shift := UInt64.ofNat k * 8 - bits.toUInt64
  if shift < 32 then
    let one := 1#32 <<< shift.toNat
    if BitVec.ssubOverflow one 1#32 then none else some ((one - 1#32).setWidth (8 * k))
  else none

namespace Ipv4Address

/-- The address, combined with the mask. -/
def combine (op : Word 4 → Word 4 → Word 4) (native : Endian) (x : Ipv4Address) (prefixLen : UInt32) :
    Option (Option Ipv4Address) :=
  if 32 < prefixLen then some none
  else (createMask 4 prefixLen).map fun mask =>
    some { x with sAddr := op x.sAddr (byteSwapOnLittleEndian native mask) }

def broadcastAddress (native : Endian) (x : Ipv4Address) (prefixLen : UInt32) : Option (Option Ipv4Address) :=
  combine (· ||| ·) native x prefixLen

def networkAddress (native : Endian) (x : Ipv4Address) (prefixLen : UInt32) : Option (Option Ipv4Address) :=
  combine (· &&& ·) native x prefixLen

def subnetMask (native : Endian) (prefixLen : UInt32) : Option Ipv4Address :=
  (createMask 4 prefixLen).map fun mask =>
    { sinPort := 0, sAddr := ~~~byteSwapOnLittleEndian native mask }

end Ipv4Address

namespace Ipv6Address

/-- The loop of `networkAddress`: the bytes from `i` on are set to zero. -/
def zeroFrom (i : Nat) (s6Addr : Fin 16 → UInt8) : Fin 16 → UInt8 :=
  if h : i < 16 then zeroFrom (i + 1) (update s6Addr ⟨i, h⟩ 0) else s6Addr

def networkAddress (x : Ipv6Address) (prefixLen : UInt32) : Option Ipv6Address :=
  let index := (prefixLen / 8).toNat
  if h : index < 16 then
    (createMask 1 (prefixLen % 8)).map fun mask =>
      let s6Addr := update x.s6Addr ⟨index, h⟩ (x.s6Addr ⟨index, h⟩ &&& UInt8.ofBitVec mask)
      { x with s6Addr := zeroFrom (index + 1) s6Addr }
  else none

end Ipv6Address

/-! ## The mask -/

/-- `1 << 31` is the least `int`. -/
theorem ssubOverflow_shift : ∀ shift < 32, BitVec.ssubOverflow (1#32 <<< shift) 1#32 = decide (shift = 31) := by
  decide

theorem shift_sub_one : ∀ shift < 31, 1#32 <<< shift - 1#32 = BitVec.ofNat 32 (2 ^ shift - 1) := by
  decide

theorem createMask_eq {k : Nat} (hk : k ≤ 4) {bits : UInt32} (hbits : bits.toNat ≤ 8 * k) :
    createMask k bits = if 8 * k - bits.toNat < 31 then some (lowBits (8 * k) (8 * k - bits.toNat)) else none := by
  have hsize : (UInt64.ofNat k * 8).toNat = 8 * k := by
    rw [UInt64.toNat_mul, UInt64.toNat_ofNat']
    show k % 2 ^ 64 * 8 % 2 ^ 64 = 8 * k
    omega
  have hle : bits.toUInt64 ≤ UInt64.ofNat k * 8 := by
    rw [UInt64.le_iff_toNat_le, hsize, UInt32.toNat_toUInt64]
    exact hbits
  have hshift : (UInt64.ofNat k * 8 - bits.toUInt64).toNat = 8 * k - bits.toNat := by
    rw [UInt64.toNat_sub_of_le _ _ hle, hsize, UInt32.toNat_toUInt64]
  have hlt : UInt64.ofNat k * 8 - bits.toUInt64 < 32 ↔ 8 * k - bits.toNat < 32 := by
    rw [UInt64.lt_iff_toNat_lt, hshift]
    rfl
  unfold createMask
  dsimp only
  rw [hshift]
  by_cases hsmall : 8 * k - bits.toNat < 31
  · have hint : 8 * k - bits.toNat < 32 := by omega
    have hno : decide (8 * k - bits.toNat = 31) = false := decide_eq_false (by omega)
    rw [if_pos (hlt.mpr hint), ssubOverflow_shift _ hint, hno, if_neg Bool.false_ne_true, if_pos hsmall,
      shift_sub_one _ hsmall, BitVec.setWidth_ofNat_of_le (by omega)]
    rfl
  · rw [if_neg hsmall]
    by_cases hint : 8 * k - bits.toNat < 32
    · have heq : 8 * k - bits.toNat = 31 := by omega
      rw [if_pos (hlt.mpr hint), heq, ssubOverflow_shift 31 (by decide), decide_eq_true rfl, if_pos rfl]
    · rw [if_neg fun h => hint (hlt.mp h)]

/-! ## IPv4 -/

namespace Ipv4Address

variable (native : Endian) (x : Ipv4Address) {prefixLen : UInt32}

/-- The three addresses of a network, and how they hang together. -/
def Subnets (prefixLen : UInt32) : Prop :=
  ∃ network broadcast mask, x.networkAddress native prefixLen = some (some network) ∧
    x.broadcastAddress native prefixLen = some (some broadcast) ∧
    subnetMask native prefixLen = some mask ∧
    KeepsFirst prefixLen.toNat (x.address native) false (network.address native) ∧
    KeepsFirst prefixLen.toNat (x.address native) true (broadcast.address native) ∧
    KeepsFirst prefixLen.toNat (BitVec.allOnes _) false (mask.address native) ∧
    network.address native = x.address native &&& mask.address native ∧
    broadcast.address native = network.address native ||| ~~~mask.address native

/-- The mask of the hosts, from a length of two on. -/
theorem createMask_word (hle : prefixLen.toNat ≤ 32) :
    createMask 4 prefixLen = if 2 ≤ prefixLen.toNat then some (lowBits 32 (32 - prefixLen.toNat)) else none := by
  rw [createMask_eq (Nat.le_refl 4) hle]
  split
  · rw [if_pos (by omega)]
  · rw [if_neg (by omega)]

theorem not_lt_of_toNat_le (hle : prefixLen.toNat ≤ 32) : ¬ 32 < prefixLen := fun hlt =>
  Nat.not_lt.mpr hle (UInt32.lt_iff_toNat_lt.mp hlt)

theorem combine_eq {op : Word 4 → Word 4 → Word 4} (hop : ∀ a b, byteSwapOnLittleEndian native (op a b) =
      op (byteSwapOnLittleEndian native a) (byteSwapOnLittleEndian native b))
    (hle : prefixLen.toNat ≤ 32) (htwo : 2 ≤ prefixLen.toNat) :
    ∃ r, combine op native x prefixLen = some (some r) ∧
      r.address native = op (x.address native) (lowBits 32 (32 - prefixLen.toNat)) := by
  refine ⟨{ x with sAddr := op x.sAddr (byteSwapOnLittleEndian native (lowBits (8 * 4) (32 - prefixLen.toNat))) },
    ?_, ?_⟩
  · rw [combine, if_neg (not_lt_of_toNat_le hle), createMask_word hle, if_pos htwo, Option.map_some]
  · rw [address, hop, byteSwapOnLittleEndian_twice]
    rfl

theorem subnetMask_eq (hle : prefixLen.toNat ≤ 32) (htwo : 2 ≤ prefixLen.toNat) :
    ∃ mask, subnetMask native prefixLen = some mask ∧
      mask.address native = ~~~lowBits 32 (32 - prefixLen.toNat) := by
  refine ⟨{ sinPort := 0, sAddr := ~~~byteSwapOnLittleEndian native (lowBits (8 * 4) (32 - prefixLen.toNat)) },
    ?_, ?_⟩
  · rw [subnetMask, createMask_word hle, if_pos htwo, Option.map_some]
  · rw [address, byteSwapOnLittleEndian_not, byteSwapOnLittleEndian_twice]

/-- Broadcast address and mask are right from a length of two on, the network address for the address zero only. -/
theorem subnets_iff (hle : prefixLen.toNat ≤ 32) :
    x.Subnets native prefixLen ↔ 2 ≤ prefixLen.toNat ∧ x.address native = 0 := by
  constructor
  · rintro ⟨network, broadcast, mask, hnetwork, -, -, hkeeps, -⟩
    have htwo : 2 ≤ prefixLen.toNat := by
      by_contra hsmall
      rw [networkAddress, combine, if_neg (not_lt_of_toNat_le hle), createMask_word hle, if_neg hsmall] at hnetwork
      cases hnetwork
    obtain ⟨network', hnetwork', haddress⟩ := x.combine_eq native (byteSwapOnLittleEndian_and native) hle htwo
    obtain rfl : network' = network := Option.some.inj (Option.some.inj (hnetwork'.symm.trans hnetwork))
    rw [haddress] at hkeeps
    exact ⟨htwo, (keepsFirst_and_iff hle _).mp hkeeps⟩
  · rintro ⟨htwo, hzero⟩
    obtain ⟨network, hnetwork, hn⟩ := x.combine_eq native (byteSwapOnLittleEndian_and native) hle htwo
    obtain ⟨broadcast, hbroadcast, hb⟩ := x.combine_eq native (byteSwapOnLittleEndian_or native) hle htwo
    obtain ⟨mask, hmask, hm⟩ := subnetMask_eq native hle htwo
    have hkeepsN : KeepsFirst prefixLen.toNat (x.address native) false (network.address native) :=
      hn ▸ (keepsFirst_and_iff hle _).mpr hzero
    have hkeepsB : KeepsFirst prefixLen.toNat (x.address native) true (broadcast.address native) :=
      hb ▸ keepsFirst_or hle _
    have hkeepsM : KeepsFirst prefixLen.toNat (BitVec.allOnes _) false (mask.address native) :=
      hm ▸ keepsFirst_not hle
    exact ⟨network, broadcast, mask, hnetwork, hbroadcast, hmask, hkeepsN, hkeepsB, hkeepsM,
      hkeepsN.eq_and hkeepsM, hkeepsB.eq_or_not hkeepsN hkeepsM⟩

end Ipv4Address

/-! ## IPv6 -/

namespace Ipv6Address

variable (x : Ipv6Address) {prefixLen : UInt32}

/-- The first bits are kept, and the others are zero. -/
def KeepsNetwork (prefixLen : UInt32) : Prop :=
  ∃ network, x.networkAddress prefixLen = some network ∧
    ∀ i : Fin 128, network.bit i = if i < prefixLen.toNat then x.bit i else false

theorem zeroFrom_apply (i : Nat) (s6Addr : Fin 16 → UInt8) (j : Fin 16) :
    zeroFrom i s6Addr j = if i ≤ j then 0 else s6Addr j := by
  induction h : 16 - i generalizing i s6Addr with
  | zero =>
    have hlast : ¬ i < 16 := by omega
    rw [zeroFrom, dif_neg hlast, if_neg (by omega)]
  | succ n ih =>
    have hi : i < 16 := by omega
    rw [zeroFrom, dif_pos hi, ih (i + 1) _ (by omega)]
    rcases Nat.lt_trichotomy i j with hlt | heq | hgt
    · rw [if_pos (Nat.succ_le_of_lt hlt), if_pos (Nat.le_of_lt hlt)]
    · have hj : j = ⟨i, hi⟩ := Fin.ext heq.symm
      rw [if_neg (by omega), if_pos (Nat.le_of_eq heq), hj, Function.update_self]
    · have hj : j ≠ ⟨i, hi⟩ := fun h => by
        rw [h] at hgt
        exact Nat.lt_irrefl i hgt
      rw [if_neg (by omega), if_neg (by omega), Function.update_of_ne hj]

/-- The bytes of the network. -/
theorem networkAddress_eq (hlt : prefixLen.toNat < 128) :
    ∃ network, x.networkAddress prefixLen = some network ∧
      ∀ j, (network.s6Addr j).toBitVec = if prefixLen.toNat / 8 < j then 0
        else if prefixLen.toNat / 8 = j then
          (x.s6Addr j).toBitVec &&& lowBits 8 (8 - prefixLen.toNat % 8)
        else (x.s6Addr j).toBitVec := by
  have hindex : (prefixLen / 8).toNat = prefixLen.toNat / 8 := UInt32.toNat_div _ _
  have hbits : (prefixLen % 8).toNat = prefixLen.toNat % 8 := UInt32.toNat_mod _ _
  have hmask : createMask 1 (prefixLen % 8) = some (lowBits 8 (8 - prefixLen.toNat % 8)) := by
    rw [createMask_eq (by decide) (by omega), hbits, if_pos (by omega)]
  have hbound : (prefixLen / 8).toNat < 16 := by omega
  rw [networkAddress, dif_pos hbound, hmask, Option.map_some]
  refine ⟨_, rfl, fun j => ?_⟩
  dsimp only
  rw [zeroFrom_apply]
  rcases Nat.lt_trichotomy (prefixLen.toNat / 8) j with hlt | heq | hgt
  · rw [if_pos (by omega), if_pos hlt]
    rfl
  · have hj : j = ⟨(prefixLen / 8).toNat, hbound⟩ := Fin.ext (heq.symm.trans hindex.symm)
    rw [if_neg (by omega), if_neg (by omega), if_pos heq, hj, Function.update_self]
    rfl
  · have hj : j ≠ ⟨(prefixLen / 8).toNat, hbound⟩ := fun h => by
      have hval : (j : Nat) = (prefixLen / 8).toNat := congrArg Fin.val h
      omega
    rw [if_neg (by omega), if_neg (by omega), if_neg (by omega), Function.update_of_ne hj]

/-- The network is right when the byte in which the length ends is zero, and exists. -/
theorem keepsNetwork_iff (hle : prefixLen.toNat ≤ 128) :
    x.KeepsNetwork prefixLen ↔ ∃ h : prefixLen.toNat / 8 < 16, x.s6Addr ⟨prefixLen.toNat / 8, h⟩ = 0 := by
  by_cases hlt : prefixLen.toNat < 128
  · have hbound : prefixLen.toNat / 8 < 16 := by omega
    obtain ⟨network, hnetwork, hbytes⟩ := x.networkAddress_eq hlt
    constructor
    · rintro ⟨network', hnetwork', hkeeps⟩
      obtain rfl : network = network' := Option.some.inj (hnetwork.symm.trans hnetwork')
      refine ⟨hbound, UInt8.toBitVec_inj.mp ((keepsFirst_and_iff (p := prefixLen.toNat % 8) (by omega) _).mp ?_)⟩
      intro i hi
      have hbit := hkeeps ⟨8 * (prefixLen.toNat / 8) + i, by omega⟩
      rw [network.bit_byte ⟨_, hbound⟩ hi, x.bit_byte ⟨_, hbound⟩ hi, hbytes, if_neg (Nat.lt_irrefl _),
        if_pos rfl] at hbit
      rw [hbit]
      exact if_congr (by dsimp only; omega) rfl rfl
    · rintro ⟨_, hzero⟩
      refine ⟨network, hnetwork, fun i => ?_⟩
      obtain ⟨q, r, hr, rfl⟩ := exists_byte i
      rw [network.bit_byte q hr, x.bit_byte q hr, hbytes]
      dsimp only
      rcases Nat.lt_trichotomy (prefixLen.toNat / 8) q with hq | hq | hq
      · rw [if_pos hq, if_neg (by omega)]
        exact BitVec.getMsbD_zero
      · have hbyte : x.s6Addr q = 0 := by
          rw [← hzero]
          exact congrArg x.s6Addr (Fin.ext hq.symm)
        rw [if_neg (by omega), if_pos hq, hbyte]
        show ((0#8) &&& _).getMsbD r = if _ then (0#8).getMsbD r else false
        rw [BitVec.zero_and, BitVec.getMsbD_zero, ite_self]
      · rw [if_neg (by omega), if_neg (by omega), if_pos (by omega)]
  · have hindex : ¬ (prefixLen / 8).toNat < 16 := by
      have : (prefixLen / 8).toNat = prefixLen.toNat / 8 := UInt32.toNat_div _ _
      omega
    constructor
    · rintro ⟨network, hnetwork, -⟩
      rw [networkAddress, dif_neg hindex] at hnetwork
      cases hnetwork
    · rintro ⟨hbound, -⟩
      omega

end Ipv6Address

/-! ## Both -/

/-- When the addresses of a network are what they should be. -/
theorem networks_iff (native : Endian) :
    (∀ (x : Ipv4Address) (prefixLen : UInt32), prefixLen.toNat ≤ 32 →
      (x.Subnets native prefixLen ↔ 2 ≤ prefixLen.toNat ∧ x.address native = 0)) ∧
    ∀ (x : Ipv6Address) (prefixLen : UInt32), prefixLen.toNat ≤ 128 →
      (x.KeepsNetwork prefixLen ↔
        ∃ h : prefixLen.toNat / 8 < 16, x.s6Addr ⟨prefixLen.toNat / 8, h⟩ = 0) :=
  ⟨fun x _ hle => x.subnets_iff native hle, fun x _ hle => x.keepsNetwork_iff hle⟩

/-- The network of `0.0.0.0/8` and of `::/64`. -/
theorem networks_iff_zero : (Ipv4Address.ofAddress .little 0 80).Subnets .little 8 ∧
    (Ipv6Address.ofAddress .little (fun _ => 0) 80).KeepsNetwork 64 :=
  ⟨((networks_iff .little).1 _ 8 (by decide)).mpr ⟨by decide, address_ofAddress .little 0 80⟩,
    ((networks_iff .little).2 _ 64 (by decide)).mpr ⟨by decide, rfl⟩⟩

/-- The network of `192.168.1.7/24` is not `192.168.1.0` but `0.0.0.7`. -/
theorem not_networks : ¬ ∀ (x : Ipv4Address) (prefixLen : UInt32), prefixLen.toNat ≤ 32 →
    x.Subnets .little prefixLen := by
  intro h
  obtain ⟨network, -, -, hnetwork, -, -, hkeeps, -⟩ :=
    h (.ofAddress .little 0xc0a80107#32 80) 24 (by decide)
  have hseven : (Ipv4Address.ofAddress .little 0xc0a80107#32 80).networkAddress .little 24 =
      some (some (.ofAddress .little 0x00000007#32 80)) := by decide
  rw [hseven, Option.some.injEq, Option.some.injEq] at hnetwork
  subst hnetwork
  exact absurd (hkeeps 0 (by decide)) (by decide)

end Nemo.Net
