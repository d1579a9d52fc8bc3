import Nemo.Http.Table
import Nemo.Infra.Integral
import Nemo.Infra.Numeral

/-!
# `Digit2Str` and `Hex2Str`

Both write the digits from the last one on, then the sign, and reverse what they have written. The remainder of a
negative number is not positive, and the table of `Digit2Str` has the digits on both sides of the zero, so
that no number is negated.

`prints_exact` — what they write is the canonical numeral of the number, for every type and every value
-/

namespace Nemo

open Function (update)
open Infra IntegralType
open Http (Bytes ascii)

/-- A `char*` and what is behind it. -/
abbrev CharBuffer := Nat → UInt8

/-! ## The functions -/

/-- A base, and the table of its digits with the position of the zero. -/
structure Digits where
  base : int.Value
  one_lt : 1 < base.val
  table : Bytes
  zero : Int

def Digits.decimal : Digits where
  base := ⟨10, by decide⟩
  one_lt := by decide
  table := ascii "9876543210123456789"
  zero := 9

def Digits.hex : Digits where
  base := ⟨16, by decide⟩
  one_lt := by decide
  table := ascii "0123456789ABCDEF"
  zero := 0

/-- `zero[lsd]`, in an array that ends with a NUL byte. -/
def Digits.char (d : Digits) (lsd : Int) : Option UInt8 :=
  if 0 ≤ d.zero + lsd then (d.table ++ [0])[(d.zero + lsd).toNat]? else none

theorem natAbs_quot_lt (d : Digits) {T : IntegralType} {v : T.Value}
    (h : (T.convert (quot v d.base)).val ≠ 0) :
    (T.convert (quot v d.base)).val.natAbs < v.val.natAbs := by
  have hbase := d.one_lt
  rw [convert_quot (by omega)] at h ⊢
  have hv : v.val.natAbs ≠ 0 := by
    intro h0
    rw [Int.natAbs_eq_zero.mp h0, Int.zero_tdiv] at h
    exact h rfl
  rw [Int.natAbs_tdiv]
  exact Nat.div_lt_self (Nat.pos_of_ne_zero hv) (by omega)

/-- The `do` loop. -/
def printLoop (d : Digits) {T : IntegralType} (buf : CharBuffer) (p : Nat) (tmp : T.Value) :
    Option (CharBuffer × Nat) :=
  let lsd := int.convert (rem tmp d.base)
  let tmp' := T.convert (quot tmp d.base)
  match d.char lsd.val with
  | none => none
  | some c =>
    if tmp'.val ≠ 0 then printLoop d (update buf p c) (p + 1) tmp' else some (update buf p c, p + 1)
termination_by tmp.val.natAbs
decreasing_by exact natAbs_quot_lt d (by assumption)

/-- `std::reverse` of the bytes before `p`. -/
def reverseBefore (buf : CharBuffer) (p : Nat) : CharBuffer := fun i => if i < p then buf (p - 1 - i) else buf i

/-- Both functions. Gives what is in the buffer afterwards, and what is returned. -/
def toStr (d : Digits) {T : IntegralType} (buf : CharBuffer) (v : T.Value) : Option (CharBuffer × Nat) := do
  let (buf, p) ← printLoop d buf 0 v
  let (buf, p) := if v.val < 0 then (update buf p 45, p + 1) else (buf, p)
  let buf := update buf p 0
  return (reverseBefore buf p, p)

/-- `Digit2Str` -/
def digit2Str {T : IntegralType} (buf : CharBuffer) (v : T.Value) : Option (CharBuffer × Nat) :=
  toStr .decimal buf v

/-- `uintptr_t` -/
def uintptr : IntegralType := ⟨64, false, by decide⟩

/-- `Hex2Str` -/
def hex2Str (buf : CharBuffer) (v : uintptr.Value) : Option (CharBuffer × Nat) := toStr .hex buf v

/-! ## What they write -/

/-- A digit, with the upper-case letters behind `9`. -/
def digitByte (k : Nat) : UInt8 := UInt8.ofNat (if k < 10 then 48 + k else 55 + k)

/-- The minus sign of a negative number. -/
def signOf (v : Int) : Bytes := if v < 0 then [45] else []

/--
`buf'` is `buf` with a text and a NUL byte written to its beginning. The text has the length `length` and is the
canonical numeral of `v` to the base `b`.
-/
def Prints (b : Nat) (v : Int) (buf buf' : CharBuffer) (length : Nat) : Prop :=
  ∃ ds, IsNumeral b ds v.natAbs ∧
    (List.range length).map buf' = signOf v ++ ds.map digitByte ∧ buf' length = 0 ∧ ∀ i > length, buf' i = buf i

/-! ## Texts in a buffer -/

/-- `text` is written from `p` on. -/
def store (buf : CharBuffer) (p : Nat) : Bytes → CharBuffer
  | [] => buf
  | c :: text => store (update buf p c) (p + 1) text

theorem store_append (buf : CharBuffer) (p : Nat) (s t : Bytes) :
    store buf p (s ++ t) = store (store buf p s) (p + s.length) t := by
  induction s generalizing buf p with
  | nil => rfl
  | cons c s ih =>
    have hlen : p + (c :: s).length = p + 1 + s.length := by
      rw [List.length_cons]
      omega
    rw [hlen]
    exact ih (update buf p c) (p + 1)

theorem store_of_lt {buf : CharBuffer} {p i : Nat} (h : i < p) (text : Bytes) : store buf p text i = buf i := by
  induction text generalizing buf p with
  | nil => rfl
  | cons c text ih => exact (ih (Nat.lt_succ_of_lt h)).trans (Function.update_of_ne (Nat.ne_of_lt h) ..)

theorem store_of_ge {buf : CharBuffer} {p i : Nat} {text : Bytes} (h : p + text.length ≤ i) :
    store buf p text i = buf i := by
  induction text generalizing buf p with
  | nil => rfl
  | cons c text ih =>
    rw [List.length_cons] at h
    exact (ih (by omega)).trans (Function.update_of_ne (by omega) ..)

/-- What is read where it was written. -/
theorem map_store (buf : CharBuffer) (p : Nat) (text : Bytes) :
    (List.range' p text.length).map (store buf p text) = text := by
  induction text generalizing buf p with
  | nil => rfl
  | cons c text ih =>
    rw [List.length_cons, List.range'_succ, List.map_cons, store, ih, store_of_lt (Nat.lt_succ_self p),
      Function.update_self]

theorem map_reverseBefore (buf : CharBuffer) (p : Nat) :
    (List.range p).map (reverseBefore buf p) = ((List.range p).map buf).reverse := by
  refine List.ext_getElem (by simp) fun i hi _ => ?_
  rw [List.length_map, List.length_range] at hi
  simp [reverseBefore, hi]

/-! ## The loop -/

/-- The table has the digit of every remainder of a value of the type. -/
def Digits.Covers (d : Digits) (T : IntegralType) : Prop :=
  ∀ lsd : Int, lsd.natAbs < d.base.val.natAbs → (lsd < 0 → T.isSigned = true) →
    d.char lsd = some (digitByte lsd.natAbs)

theorem decimal_covers (T : IntegralType) : Digits.decimal.Covers T := by
  intro lsd hlt _
  have hall : ∀ k < 10, Digits.decimal.char (k : Nat) = some (digitByte k) ∧
      Digits.decimal.char (-(k : Nat)) = some (digitByte k) := by decide
  obtain ⟨hpos, hneg⟩ := hall lsd.natAbs hlt
  rcases Int.natAbs_eq lsd with h | h
  · rwa [← h] at hpos
  · rwa [← h] at hneg

theorem hex_covers : Digits.hex.Covers uintptr := by
  intro lsd hlt hsign
  have hall : ∀ k < 16, Digits.hex.char (k : Nat) = some (digitByte k) := by decide
  have hpos := hall lsd.natAbs hlt
  have hnonneg : 0 ≤ lsd := Int.not_lt.mp fun h => Bool.false_ne_true (hsign h)
  rwa [Int.natAbs_of_nonneg hnonneg] at hpos

variable {d : Digits} {T : IntegralType}

theorem isSigned_of_neg {v : T.Value} (h : v.val < 0) : T.isSigned = true := by
  have hmin := v.property.1
  unfold IntegralType.min at hmin
  split at hmin
  · next hs => exact hs
  · omega

theorem base_natAbs (d : Digits) : 1 < d.base.val.natAbs := by
  have hbase := d.one_lt
  omega

/-- One turn writes the digit of the last place. -/
theorem printLoop_step (hd : d.Covers T) (buf : CharBuffer) (p : Nat) (v : T.Value) :
    printLoop d buf p v =
      let c := digitByte (v.val.natAbs % d.base.val.natAbs)
      let v' := T.convert (quot v d.base)
      if v'.val ≠ 0 then printLoop d (update buf p c) (p + 1) v' else some (update buf p c, p + 1) := by
  have hpos : 0 < d.base.val := Int.lt_trans (by decide) d.one_lt
  have hchar : d.char (int.convert (rem v d.base)).val =
      some (digitByte (v.val.natAbs % d.base.val.natAbs)) := by
    rw [convert_rem hpos, hd, Int.natAbs_tmod]
    · rw [Int.natAbs_tmod]
      exact Nat.mod_lt _ (Nat.lt_of_succ_lt (base_natAbs d))
    · intro hneg
      refine isSigned_of_neg (v := v) (Int.not_le.mp fun h => ?_)
      exact absurd hneg (Int.not_lt.mpr (Int.tmod_nonneg _ h))
  rw [printLoop, hchar]

/-- **The loop writes the digits from the last one on.** -/
theorem printLoop_eq (hd : d.Covers T) (buf : CharBuffer) (p : Nat) (v : T.Value) :
    printLoop d buf p v =
      some (store buf p ((numeral d.base.val.natAbs v.val.natAbs).reverse.map digitByte),
        p + (numeral d.base.val.natAbs v.val.natAbs).length) := by
  have hpos : 0 < d.base.val := Int.lt_trans (by decide) d.one_lt
  have hrev := reverse_numeral (base_natAbs d) v.val.natAbs
  have hquot : (T.convert (quot v d.base)).val.natAbs = v.val.natAbs / d.base.val.natAbs := by
    rw [convert_quot hpos, Int.natAbs_tdiv]
    rfl
  rw [printLoop_step hd, ← List.length_reverse, hrev]
  dsimp only
  by_cases hzero : (T.convert (quot v d.base)).val = 0
  · rw [if_neg (not_not_intro hzero), if_pos (by rw [← hquot, hzero]; rfl)]
    rfl
  · rw [if_pos hzero, if_neg (by rw [← hquot]; exact Int.natAbs_ne_zero.mpr hzero),
      printLoop_eq hd (update buf p _) (p + 1) (T.convert (quot v d.base)), hquot, List.length_cons,
      List.length_reverse, Nat.add_assoc, Nat.add_comm 1]
    rfl
termination_by v.val.natAbs
decreasing_by exact natAbs_quot_lt d hzero

/-! ## The functions -/

/-- **The text is the numeral of the number**, for a table that has all digits. -/
theorem prints_toStr (hd : d.Covers T) (buf : CharBuffer) (v : T.Value) :
    ∃ buf' length, toStr d buf v = some (buf', length) ∧
      Prints d.base.val.natAbs v.val buf buf' length := by
  have hb := base_natAbs d
  generalize hds : numeral d.base.val.natAbs v.val.natAbs = ds
  have hnumeral : IsNumeral d.base.val.natAbs ds v.val.natAbs := (isNumeral_iff hb).mpr hds.symm
  -- the text in the order in which it is written
  generalize htext : ds.reverse.map digitByte ++ signOf v.val = text
  have hreverse : text.reverse = signOf v.val ++ ds.map digitByte := by
    rw [← htext, List.reverse_append, List.map_reverse, List.reverse_reverse]
    congr 1
    unfold signOf
    split <;> rfl
  have htoStr : toStr d buf v =
      some (reverseBefore (update (store buf 0 text) text.length 0) text.length, text.length) := by
    rw [toStr, printLoop_eq hd, hds, ← htext, store_append, List.length_append, List.length_map,
      List.length_reverse, Nat.zero_add]
    unfold signOf
    by_cases hneg : v.val < 0
    · simp only [Option.bind_eq_bind, Option.bind_some, if_pos hneg]
      rfl
    · simp only [Option.bind_eq_bind, Option.bind_some, if_neg hneg]
      rfl
  refine ⟨_, _, htoStr, ds, hnumeral, ?_, ?_, fun i hi => ?_⟩
  · rw [map_reverseBefore, ← hreverse]
    refine congrArg List.reverse ?_
    calc (List.range text.length).map (update (store buf 0 text) text.length 0)
        = (List.range text.length).map (store buf 0 text) :=
          List.map_congr_left fun i hi => Function.update_of_ne (Nat.ne_of_lt (List.mem_range.mp hi)) ..
      _ = text := by rw [List.range_eq_range', map_store]
  · rw [reverseBefore, if_neg (Nat.lt_irrefl _), Function.update_self]
  · rw [reverseBefore, if_neg (Nat.lt_asymm hi), Function.update_of_ne (Nat.ne_of_gt hi), store_of_ge]
    omega

/--
**Integer printing is exact.** For every type and every value of it, `Digit2Str` writes the decimal numeral and
`Hex2Str` the hexadecimal one, with a NUL byte behind it, and returns its length.
-/
theorem prints_exact :
    (∀ (T : IntegralType) (buf : CharBuffer) (v : T.Value), ∃ buf' length,
      digit2Str buf v = some (buf', length) ∧ Prints 10 v.val buf buf' length) ∧
    ∀ (buf : CharBuffer) (v : uintptr.Value), ∃ buf' length,
      hex2Str buf v = some (buf', length) ∧ Prints 16 v.val buf buf' length :=
  ⟨fun T buf v => prints_toStr (decimal_covers T) buf v, fun buf v => prints_toStr hex_covers buf v⟩

end Nemo
