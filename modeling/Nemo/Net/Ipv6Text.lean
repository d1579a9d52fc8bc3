import Mathlib.Data.List.FinRange
import Nemo.Infra.GroupText
import Nemo.Net.Address

/-!
# The text of an IPv6 address

`Ipv6Address::dump` goes through the eight groups once. It leaves out the zeros of the first run and writes a
second colon before the group behind them; zeros that come later are written. When nothing came behind the run,
the `::` is written at the end.
-/

namespace Nemo.Net

open Infra
open Infra.GroupText

namespace Ipv6Address

/-- `addr[i]`: two bytes of the address as a word of the machine. -/
def addr (native : Endian) (x : Ipv6Address) (i : Fin 8) : Word 2 :=
  wordOf 2 native [x.s6Addr ⟨2 * i, by omega⟩, x.s6Addr ⟨2 * i + 1, by omega⟩]

/-- What has been written, and whether there is a `::` in it. -/
structure Dump where
  os : List Char
  usedZeros : Bool

/-- One round of the loop. -/
def dumpGroup (native : Endian) (x : Ipv6Address) (s : Dump) (i : Fin 8) : Dump :=
  if x.addr native i = 0 ∧ ¬ s.usedZeros then s
  else
    let s := if i ≠ 0 ∧ x.addr native (i - 1) = 0 ∧ ¬ s.usedZeros
      then { os := s.os ++ [':'], usedZeros := true } else s
    let s := if i ≠ 0 then { s with os := s.os ++ [':'] } else s
    { s with os := s.os ++ Nat.toDigits 16 (byteSwapOnLittleEndian native (x.addr native i)).toNat }

def dump (native : Endian) (x : Ipv6Address) : List Char :=
  let s := (List.finRange 8).foldl (x.dumpGroup native) { os := ['['], usedZeros := false }
  let s := if ¬ s.usedZeros ∧ x.addr native 7 = 0 then { s with os := s.os ++ [':', ':'] } else s
  s.os ++ [']', ':'] ++ Nat.toDigits 10 (byteSwapOnLittleEndian native x.sin6Port).toNat

/-- The groups of the address: two bytes each, the higher one first. -/
def group (x : Ipv6Address) (i : Fin 8) : Nat :=
  256 * (x.s6Addr ⟨2 * i, by omega⟩).toNat + (x.s6Addr ⟨2 * i + 1, by omega⟩).toNat

def groups (x : Ipv6Address) : List Nat := (List.finRange 8).map x.group

variable (native : Endian) (x : Ipv6Address)

/-! ## Groups -/

theorem group_lt (i : Fin 8) : x.group i < 16 ^ 4 := by
  have hhigh := (x.s6Addr ⟨2 * i, by omega⟩).toNat_lt
  have hlow := (x.s6Addr ⟨2 * i + 1, by omega⟩).toNat_lt
  unfold group
  omega

theorem byteSwap_wordOf {k : Nat} {bytes : List UInt8} (h : bytes.length = k) :
    byteSwap (wordOf k .little bytes) = wordOf k .big bytes := by
  have hlt := ofLittleEndian_lt bytes
  have hpow : 2 ^ (8 * k) = 256 ^ k := Nat.pow_mul 2 8 k
  rw [h, ← hpow] at hlt
  have hback := littleEndian_ofLittleEndian bytes
  rw [h] at hback
  rw [byteSwap, wordOf, BitVec.toNat_ofNat, Nat.mod_eq_of_lt hlt, hback]

/-- The group that is written. -/
theorem toNat_addr (i : Fin 8) : (byteSwapOnLittleEndian native (x.addr native i)).toNat = x.group i := by
  have hbig : byteSwapOnLittleEndian native (x.addr native i) =
      wordOf 2 .big [x.s6Addr ⟨2 * i, by omega⟩, x.s6Addr ⟨2 * i + 1, by omega⟩] := by
    cases native with
    | little => exact byteSwap_wordOf rfl
    | big => rfl
  have hgroup : ofLittleEndian [x.s6Addr ⟨2 * i, by omega⟩, x.s6Addr ⟨2 * i + 1, by omega⟩].reverse =
      x.group i := by
    simp only [List.reverse_cons, List.reverse_nil, List.nil_append, List.cons_append, ofLittleEndian, group]
    omega
  rw [hbig, wordOf, BitVec.toNat_ofNat, hgroup]
  exact Nat.mod_eq_of_lt (x.group_lt i)

theorem addr_eq_zero (i : Fin 8) : x.addr native i = 0 ↔ x.group i = 0 := by
  have hswap : byteSwapOnLittleEndian native (0 : Word 2) = 0 := by
    cases native <;> decide
  rw [← x.toNat_addr native]
  constructor
  · intro h
    rw [h, hswap]
    rfl
  · intro h
    have hzero : byteSwapOnLittleEndian native (x.addr native i) = 0 := BitVec.eq_of_toNat_eq h
    rw [← byteSwapOnLittleEndian_twice native (x.addr native i), hzero, hswap]

/-! ## The loop -/

/-- The colon before a group. -/
def separator (i : Fin 8) : List Char := if i ≠ 0 then [':'] else []

/-- Groups that are written one after the other. -/
def written (is : List (Fin 8)) : List Char := is.flatMap fun i => separator i ++ hex (x.group i)

variable {x}

theorem written_cons (i : Fin 8) (is : List (Fin 8)) :
    x.written (i :: is) = separator i ++ hex (x.group i) ++ x.written is :=
  List.flatMap_cons

theorem dumpGroup_of_zero {i : Fin 8} (h : x.group i = 0) (os : List Char) :
    x.dumpGroup native { os := os, usedZeros := false } i = { os := os, usedZeros := false } :=
  if_pos ⟨(x.addr_eq_zero native i).mpr h, Bool.false_ne_true⟩

/-- The end of a round. -/
theorem dumpGroup_eq {i : Fin 8} {s : Dump} (h : s.usedZeros = true ∨ x.group i ≠ 0)
    (hbefore : s.usedZeros = true ∨ i = 0 ∨ x.group (i - 1) ≠ 0) :
    x.dumpGroup native s i = { s with os := s.os ++ (separator i ++ hex (x.group i)) } := by
  have hskip : ¬ (x.addr native i = 0 ∧ ¬ s.usedZeros) := by
    rintro ⟨hzero, hunused⟩
    rcases h with h | h
    · exact hunused h
    · exact h ((x.addr_eq_zero native i).mp hzero)
  have hfirst : ¬ (i ≠ 0 ∧ x.addr native (i - 1) = 0 ∧ ¬ s.usedZeros) := by
    rintro ⟨hi, hzero, hunused⟩
    rcases hbefore with h | h | h
    · exact hunused h
    · exact hi h
    · exact h ((x.addr_eq_zero native (i - 1)).mp hzero)
  unfold dumpGroup
  rw [if_neg hskip, if_neg hfirst, toNat_addr]
  by_cases hi : i = 0
  · simp only [hi, ne_eq, not_true_eq_false, if_false, separator, List.nil_append]
    rfl
  · simp only [hi, ne_eq, not_false_eq_true, if_true, separator, List.append_assoc]
    rfl

theorem dumpGroup_behind_zeros {i : Fin 8} (h : x.group i ≠ 0) (hi : i ≠ 0) (hbefore : x.group (i - 1) = 0)
    (os : List Char) : x.dumpGroup native { os := os, usedZeros := false } i =
      { os := os ++ (':' :: ':' :: hex (x.group i)), usedZeros := true } := by
  have hskip : ¬ (x.addr native i = 0 ∧ ¬ false = true) := fun hzero => h ((x.addr_eq_zero native i).mp hzero.1)
  unfold dumpGroup
  rw [if_neg hskip, if_pos ⟨hi, (x.addr_eq_zero native (i - 1)).mpr hbefore, Bool.false_ne_true⟩]
  dsimp only
  rw [if_pos hi, toNat_addr]
  simp only [List.append_assoc, List.cons_append, List.nil_append]
  rfl

/-- Groups that are not zero. -/
theorem foldl_nonzero {is : List (Fin 8)} (h : ∀ i ∈ is, x.group i ≠ 0 ∧ (i = 0 ∨ x.group (i - 1) ≠ 0))
    (os : List Char) : is.foldl (x.dumpGroup native) { os := os, usedZeros := false } =
      { os := os ++ x.written is, usedZeros := false } := by
  induction is generalizing os with
  | nil => rw [List.foldl_nil, written, List.flatMap_nil, List.append_nil]
  | cons i is ih =>
    obtain ⟨hi, his⟩ := List.forall_mem_cons.mp h
    rw [List.foldl_cons, dumpGroup_eq native (.inr hi.1) (.inr hi.2), ih his, written_cons, List.append_assoc]

/-- The zeros of the first run. -/
theorem foldl_zero {is : List (Fin 8)} (h : ∀ i ∈ is, x.group i = 0) (os : List Char) :
    is.foldl (x.dumpGroup native) { os := os, usedZeros := false } = { os := os, usedZeros := false } := by
  induction is with
  | nil => rfl
  | cons i is ih =>
    obtain ⟨hi, his⟩ := List.forall_mem_cons.mp h
    rw [List.foldl_cons, dumpGroup_of_zero native hi, ih his]

/-- Any groups, behind the `::`. -/
theorem foldl_usedZeros (is : List (Fin 8)) (os : List Char) :
    is.foldl (x.dumpGroup native) { os := os, usedZeros := true } =
      { os := os ++ x.written is, usedZeros := true } := by
  induction is generalizing os with
  | nil => rw [List.foldl_nil, written, List.flatMap_nil, List.append_nil]
  | cons i is ih =>
    rw [List.foldl_cons, dumpGroup_eq native (.inl rfl) (.inl rfl), ih, written_cons, List.append_assoc]

/-! ## The first run of zeros -/

/-- The indices from `a` on, up to `b`. -/
def between (a b : Nat) : List (Fin 8) := (List.finRange 8).filter fun i => a ≤ i ∧ i < b

theorem mem_between {a b : Nat} {i : Fin 8} : i ∈ between a b ↔ a ≤ i ∧ i < b := by
  rw [between, List.mem_filter, decide_eq_true_eq, and_iff_right (List.mem_finRange i)]

theorem finRange_eq_between : ∀ a < 9, ∀ b < 9, a ≤ b →
    List.finRange 8 = between 0 a ++ (between a b ++ between b 8) := by
  decide

theorem between_cons : ∀ (a : Fin 8) (b : Nat), b < 9 → (a : Nat) < b → between a b = a :: between (a + 1) b := by
  decide

theorem length_between : ∀ a < 9, ∀ b < 9, a ≤ b → (between a b).length = b - a := by
  decide

/-- Behind the first one every group has its colon. -/
theorem written_eq_behind {is : List (Fin 8)} (h : ∀ i ∈ is, i ≠ 0) :
    x.written is = behind ((is.map x.group).map hex) := by
  induction is with
  | nil => rfl
  | cons i is ih =>
    obtain ⟨hi, his⟩ := List.forall_mem_cons.mp h
    rw [written_cons, separator, if_pos hi, ih his]
    rfl

theorem written_between_zero {a : Nat} (ha : a < 9) : x.written (between 0 a) = textOf ((between 0 a).map x.group) := by
  cases a with
  | zero => rfl
  | succ a =>
    have hcons : between 0 (a + 1) = 0 :: between 1 (a + 1) := between_cons 0 (a + 1) ha (Nat.succ_pos a)
    have hrest : ∀ i ∈ between 1 (a + 1), i ≠ 0 := by
      rintro i hi rfl
      exact absurd (mem_between.mp hi).1 (by decide)
    rw [hcons, written_cons, written_eq_behind hrest]
    rfl

/-- The first group that is zero, and the first one behind it that is not. -/
theorem exists_zeroRun (h : ¬ ∀ i, x.group i ≠ 0) : ∃ a b, a < b ∧ b ≤ 8 ∧ (∀ i ∈ between 0 a, x.group i ≠ 0) ∧
    (∀ i ∈ between a b, x.group i = 0) ∧ ∀ i : Fin 8, i = b → x.group i ≠ 0 := by
  have hzero : ∃ a, ∃ ha : a < 8, x.group ⟨a, ha⟩ = 0 := by
    by_contra hnone
    exact h fun i hi => hnone ⟨i, i.isLt, hi⟩
  obtain ⟨ha, hga⟩ := Nat.find_spec hzero
  have hend : ∃ b, Nat.find hzero < b ∧ (b = 8 ∨ ∃ hb : b < 8, x.group ⟨b, hb⟩ ≠ 0) := ⟨8, ha, .inl rfl⟩
  obtain ⟨hlt, hgb⟩ := Nat.find_spec hend
  refine ⟨Nat.find hzero, Nat.find hend, hlt, Nat.find_min' hend ⟨ha, .inl rfl⟩, fun i hi hgi => ?_,
    fun i hi => ?_, fun i hi => ?_⟩
  · exact Nat.find_min hzero (mem_between.mp hi).2 ⟨i.isLt, hgi⟩
  · obtain ⟨hlow, hhigh⟩ := mem_between.mp hi
    rcases Nat.lt_or_eq_of_le hlow with hbehind | heq
    · by_contra hgi
      exact Nat.find_min hend hhigh ⟨hbehind, .inr ⟨i.isLt, hgi⟩⟩
    · rw [← hga]
      exact congrArg x.group (Fin.ext heq.symm)
  · rcases hgb with heq | ⟨hb, hgb⟩
    · exact absurd (hi.trans heq) (Nat.ne_of_lt i.isLt)
    · have hib : i = ⟨Nat.find hend, hb⟩ := Fin.ext hi
      rwa [hib]

theorem val_sub_one : ∀ i : Fin 8, i ≠ 0 → ((i - 1 : Fin 8) : Nat) = i - 1 := by
  decide

/-- The groups, cut at the run of zeros. -/
theorem groups_eq {a b : Nat} (hab : a < b) (hb : b ≤ 8) (hzero : ∀ i ∈ between a b, x.group i = 0) :
    x.groups = (between 0 a).map x.group ++
      List.replicate (8 - ((between 0 a).map x.group).length - ((between b 8).map x.group).length) 0 ++
      (between b 8).map x.group := by
  have hrun : (between a b).map x.group =
      List.replicate (8 - ((between 0 a).map x.group).length - ((between b 8).map x.group).length) 0 := by
    refine List.eq_replicate_iff.mpr ⟨?_, List.forall_mem_map.mpr hzero⟩
    rw [List.length_map, List.length_map, List.length_map, length_between a (by omega) b (by omega) hab.le,
      length_between 0 (by decide) a (by omega) (Nat.zero_le a), length_between b (by omega) 8 (by decide) hb]
    omega
  rw [groups, finRange_eq_between a (by omega) b (by omega) hab.le, List.map_append, List.map_append, hrun,
    List.append_assoc]

/-- The loop, with a run of zeros that ends before the last group or with it. -/
theorem foldl_zeroRun {a b : Nat} (hab : a < b) (hb : b ≤ 8) (hleft : ∀ i ∈ between 0 a, x.group i ≠ 0)
    (hzero : ∀ i ∈ between a b, x.group i = 0) (hend : ∀ i : Fin 8, i = b → x.group i ≠ 0) :
    (List.finRange 8).foldl (x.dumpGroup native) { os := ['['], usedZeros := false } =
      if b = 8 then { os := '[' :: textOf ((between 0 a).map x.group), usedZeros := false }
      else { os := '[' :: (textOf ((between 0 a).map x.group) ++ ':' :: ':' :: textOf ((between b 8).map x.group)),
             usedZeros := true } := by
  have hbefore : ∀ i ∈ between 0 a, x.group i ≠ 0 ∧ (i = 0 ∨ x.group (i - 1) ≠ 0) := by
    intro i hi
    refine ⟨hleft i hi, or_iff_not_imp_left.mpr fun hne => hleft _ (mem_between.mpr ⟨Nat.zero_le _, ?_⟩)⟩
    rw [val_sub_one i hne]
    exact Nat.lt_of_le_of_lt (Nat.sub_le _ _) (mem_between.mp hi).2
  rw [finRange_eq_between a (by omega) b (by omega) hab.le, List.foldl_append, List.foldl_append,
    foldl_nonzero native hbefore, foldl_zero native hzero, written_between_zero (by omega)]
  split
  · next heq =>
    subst heq
    rfl
  · next hne =>
    have hlt : b < 8 := by omega
    have hne0 : (⟨b, hlt⟩ : Fin 8) ≠ 0 := fun h => by
      have := congrArg Fin.val h
      simp only [Fin.val_zero] at this
      omega
    have hlast : x.group (⟨b, hlt⟩ - 1) = 0 := by
      refine hzero _ (mem_between.mpr ?_)
      rw [val_sub_one _ hne0]
      dsimp only
      omega
    have hrest : ∀ i ∈ between (b + 1) 8, i ≠ 0 := by
      rintro i hi rfl
      exact absurd (mem_between.mp hi).1 (by simp)
    have hcons : between b 8 = ⟨b, hlt⟩ :: between (b + 1) 8 := between_cons ⟨b, hlt⟩ 8 (by decide) hlt
    rw [hcons, List.foldl_cons, dumpGroup_behind_zeros native (hend _ rfl) hne0 hlast, foldl_usedZeros,
      written_eq_behind hrest, List.append_assoc]
    rfl

/--
**The text has all groups.** What `dump` writes between the brackets is a text form with at most one `::`, and
stands for the eight groups of the address; the port follows.
-/
theorem expand_dump (native : Endian) (address : Fin 16 → UInt8) (port : Word 2) :
    ∃ t, (ofAddress native address port).dump native = '[' :: (t ++ [']', ':'] ++ Nat.toDigits 10 port.toNat) ∧
      doubleColons t ≤ 1 ∧ expand t = some (ofAddress native address port).groups := by
  generalize hx : ofAddress native address port = x
  have hport : byteSwapOnLittleEndian native x.sin6Port = port := by
    rw [← hx]
    exact byteSwapOnLittleEndian_twice native port
  have hlt : ∀ is : List (Fin 8), ∀ g ∈ is.map x.group, g < 16 ^ 4 := fun is =>
    List.forall_mem_map.mpr fun i _ => x.group_lt i
  unfold dump
  rw [hport]
  by_cases h : ∀ i, x.group i ≠ 0
  · have hall : List.finRange 8 = between 0 8 := by decide
    have hfold : (List.finRange 8).foldl (x.dumpGroup native) { os := ['['], usedZeros := false } =
        { os := '[' :: textOf x.groups, usedZeros := false } := by
      rw [foldl_nonzero native fun i _ => ⟨h i, .inr (h _)⟩, groups, hall, written_between_zero (by decide)]
      rfl
    have height : x.groups.length = 8 := rfl
    obtain ⟨hexpand, hcount⟩ := expand_textOf height (hlt _)
    refine ⟨textOf x.groups, ?_, hcount ▸ Nat.zero_le 1, hexpand⟩
    rw [hfold]
    dsimp only
    rw [if_neg fun hlast => h 7 ((x.addr_eq_zero native 7).mp hlast.2)]
    rfl
  · obtain ⟨a, b, hab, hb, hleft, hzero, hend⟩ := exists_zeroRun h
    have hlength : ((between 0 a).map x.group).length + ((between b 8).map x.group).length < 8 := by
      rw [List.length_map, List.length_map, length_between 0 (by decide) a (by omega) (Nat.zero_le a),
        length_between b (by omega) 8 (by decide) hb]
      omega
    obtain ⟨hexpand, hcount⟩ := expand_textOf_textOf hlength (hlt _) (hlt _)
    refine ⟨_, ?_, hcount.le, hexpand.trans (congrArg some (groups_eq hab hb hzero).symm)⟩
    rw [foldl_zeroRun native hab hb hleft hzero hend]
    split
    · next heq =>
      subst heq
      have hlast : x.addr native 7 = 0 := (x.addr_eq_zero native 7).mpr
        (hzero 7 (mem_between.mpr ⟨Nat.le_of_lt_succ hab, by decide⟩))
      dsimp only
      rw [if_pos ⟨Bool.false_ne_true, hlast⟩]
      rfl
    · dsimp only
      rw [if_neg fun hlast => hlast.1 rfl]
      rfl

end Ipv6Address

end Nemo.Net
