import Nemo.Net.FixSize

/-!
# `Stream::readFixSize` and `Stream::writeFixSize`

The overloads for a buffer, over any `read` and `write` of a stream: each call is recorded with its place in the
buffer, the bytes it was asked for, and its result.

* `transfers_iff` — all bytes are moved or the first result that is not positive is returned, if and only if the length
  is positive as an `int64_t` and, unless a result ends the loop, as an `int`
* `writeFixSize_eq`, `readFixSize_eq` — the bytes that are moved, on a `SocketStream`
-/

namespace Nemo.Stream

open Infra
open Net (toInt32 toInt64 intMax)

/-! ## The functions -/

/-- One call of `read` or `write` with `buffer + offset` and `length`. -/
structure Transfer where
  offset : Nat
  length : Nat
  result : Int
  deriving DecidableEq, Repr

/-- The results of the calls: of the `k`th one, asked for `length` bytes. They are of type `int`. -/
structure Schedule where
  result : Nat → Nat → Int
  le : ∀ k length, result k length ≤ length
  int : ∀ k length, -2 ^ 31 ≤ result k length ∧ result k length ≤ intMax

/-- The loop. Gives the calls, and what is returned from within the loop if anything is. -/
def loop (schedule : Schedule) (k offset : Nat) (left : Int) : List Transfer × Option Int :=
  if left > 0 then
    let len := schedule.result k left.toNat
    let transfer := { offset := offset, length := left.toNat, result := len }
    if len ≤ 0 then ([transfer], some len)
    else
      let (transfers, result) := loop schedule (k + 1) (offset + len.toNat) (left - len)
      (transfer :: transfers, result)
  else ([], none)
termination_by left.toNat
decreasing_by omega

/-- The functions. `left` is an `int64_t`, and an `int` is returned. -/
def fixSize (schedule : Schedule) (length : Nat) : List Transfer × Int :=
  let called := loop schedule 0 0 (toInt64 length)
  (called.1, toInt32 (called.2.getD length))

def readFixSize (schedule : Schedule) (length : Nat) : List Transfer × Int := fixSize schedule length

def writeFixSize (schedule : Schedule) (length : Nat) : List Transfer × Int := fixSize schedule length

/-! ## Moving `length` bytes -/

/-- How many bytes are moved. -/
def total (transfers : List Transfer) : Nat := (transfers.map fun t => t.result.toNat).sum

/-- Every call starts where the one before has ended. -/
def Consecutive : Nat → List Transfer → Prop
  | _, [] => True
  | p, t :: transfers => t.offset = p ∧ Consecutive (p + t.result.toNat) transfers

/-- What the calls and the value returned have to be. -/
structure Transfers (schedule : Schedule) (length : Nat) (transfers : List Transfer) (rt : Int) : Prop where
  answered : ∀ k (h : k < transfers.length), transfers[k].result = schedule.result k transfers[k].length
  consecutive : Consecutive 0 transfers
  inside : ∀ t ∈ transfers, t.offset + t.length ≤ length
  ends : (∃ front t, transfers = front ++ [t] ∧ (∀ t' ∈ front, 0 < t'.result) ∧ t.result ≤ 0 ∧ rt = t.result ∧
      total transfers < length) ∨
    (∀ t ∈ transfers, 0 < t.result) ∧ total transfers = length ∧ 0 < rt
  /-- the test of the callers -/
  fails_iff : rt ≤ 0 ↔ total transfers < length

/-- What `k` calls have moved when each was asked for all that was left. -/
def moved (schedule : Schedule) (length : Nat) : Nat → Nat
  | 0 => 0
  | k + 1 => moved schedule length k + (schedule.result k (length - moved schedule length k)).toNat

/-- A result that is not positive comes before all bytes have been moved. -/
def Stops (schedule : Schedule) (length : Nat) : Prop :=
  ∃ k, moved schedule length k < length ∧ schedule.result k (length - moved schedule length k) ≤ 0

/-! ## The loop -/

/-- A result that is not positive comes in the call `k` or later, before all bytes have been moved. -/
def StopsFrom (schedule : Schedule) (length k : Nat) : Prop :=
  ∃ j ≥ k, moved schedule length j < length ∧ schedule.result j (length - moved schedule length j) ≤ 0

/-- What the loop has done from the call `k` on. -/
structure Ran (schedule : Schedule) (length k : Nat) (transfers : List Transfer) (result : Option Int) : Prop where
  answered : ∀ j (h : j < transfers.length), transfers[j].result = schedule.result (k + j) transfers[j].length
  consecutive : Consecutive (moved schedule length k) transfers
  inside : ∀ t ∈ transfers, t.offset + t.length ≤ length
  ends : (∃ front t, transfers = front ++ [t] ∧ (∀ t' ∈ front, 0 < t'.result) ∧ t.result ≤ 0 ∧
      result = some t.result ∧ moved schedule length k + total transfers < length ∧ StopsFrom schedule length k) ∨
    (∀ t ∈ transfers, 0 < t.result) ∧ result = none ∧ moved schedule length k + total transfers = length ∧
      ¬StopsFrom schedule length k

variable {schedule : Schedule} {length k : Nat}

theorem total_cons (t : Transfer) (transfers : List Transfer) :
    total (t :: transfers) = t.result.toNat + total transfers := by
  rw [total, List.map_cons, List.sum_cons]
  rfl

theorem moved_le_of_le (schedule : Schedule) (length : Nat) {j : Nat} (h : k ≤ j) :
    moved schedule length k ≤ moved schedule length j := by
  induction h with
  | refl => exact Nat.le_refl _
  | step _ ih => exact Nat.le_trans ih (Nat.le_add_right _ _)

/-- A call stops the loop, or a later one does. -/
theorem stopsFrom_iff : StopsFrom schedule length k ↔
    (moved schedule length k < length ∧ schedule.result k (length - moved schedule length k) ≤ 0) ∨
      StopsFrom schedule length (k + 1) := by
  constructor
  · rintro ⟨j, hj, hstop⟩
    rcases Nat.eq_or_lt_of_le hj with rfl | hlt
    · exact .inl hstop
    · exact .inr ⟨j, hlt, hstop⟩
  · rintro (hstop | ⟨j, hj, hstop⟩)
    · exact ⟨k, Nat.le_refl k, hstop⟩
    · exact ⟨j, Nat.le_of_succ_le hj, hstop⟩

/-- All bytes have been moved. -/
theorem Ran.nil (h : moved schedule length k = length) : Ran schedule length k [] none where
  answered := nofun
  consecutive := trivial
  inside := nofun
  ends := by
    refine .inr ⟨nofun, rfl, h, ?_⟩
    rintro ⟨j, hj, hlt, -⟩
    have hle := moved_le_of_le schedule length hj
    omega

section

variable {len : Int} (hlt : moved schedule length k < length)
  (hlen : schedule.result k (length - moved schedule length k) = len)
include hlt hlen

/-- The call `k` stops the loop. -/
theorem Ran.stop (hstop : len ≤ 0) :
    Ran schedule length k
      [{ offset := moved schedule length k, length := length - moved schedule length k, result := len }]
      (some len) where
  answered j h := by
    obtain rfl : j = 0 := Nat.lt_one_iff.mp h
    exact hlen.symm
  consecutive := ⟨rfl, trivial⟩
  inside t ht := by
    rw [List.mem_singleton.mp ht]
    dsimp only
    omega
  ends := by
    refine .inl ⟨[], _, rfl, nofun, hstop, rfl, ?_, k, Nat.le_refl k, hlt, hlen.le.trans hstop⟩
    rw [total_cons, Int.toNat_of_nonpos hstop]
    exact hlt

/-- The call `k` moves some bytes. -/
theorem Ran.cons {transfers : List Transfer} {result : Option Int} (hpos : 0 < len)
    (h : Ran schedule length (k + 1) transfers result) :
    Ran schedule length k
      ({ offset := moved schedule length k, length := length - moved schedule length k, result := len } :: transfers)
      result where
  answered j hj := by
    cases j with
    | zero => exact hlen.symm
    | succ j =>
      have hrest := h.answered j (Nat.lt_of_succ_lt_succ hj)
      rwa [Nat.add_right_comm] at hrest
  consecutive := by
    have hrest := h.consecutive
    rw [moved, hlen] at hrest
    exact ⟨rfl, hrest⟩
  inside t ht := by
    rcases List.mem_cons.mp ht with rfl | ht
    · dsimp only
      omega
    · exact h.inside t ht
  ends := by
    have hmoved : moved schedule length (k + 1) = moved schedule length k + len.toNat := by rw [moved, hlen]
    have hnext : StopsFrom schedule length k ↔ StopsFrom schedule length (k + 1) := by
      rw [stopsFrom_iff, hlen]
      exact or_iff_right fun hstop => Int.not_le.mpr hpos hstop.2
    rw [total_cons, hnext, ← Nat.add_assoc, ← hmoved]
    rcases h.ends with ⟨front, t, rfl, hfront, hstop, hresult, hlt, hstops⟩ | ⟨hall, hresult, htotal, hstops⟩
    · exact .inl ⟨_ :: front, t, rfl, List.forall_mem_cons.mpr ⟨hpos, hfront⟩, hstop, hresult, hlt, hstops⟩
    · exact .inr ⟨List.forall_mem_cons.mpr ⟨hpos, hall⟩, hresult, htotal, hstops⟩

end

/-- **The loop from the call `k` on**, when the ones before have moved `moved schedule length k` bytes. -/
theorem ran_loop (schedule : Schedule) (k : Nat) (left : Int) (hle : moved schedule length k ≤ length)
    (hleft : left = length - moved schedule length k) :
    Ran schedule length k (loop schedule k (moved schedule length k) left).1
      (loop schedule k (moved schedule length k) left).2 := by
  rw [loop]
  by_cases hmore : left > 0
  · have hnat : left.toNat = length - moved schedule length k := by omega
    have hlt : moved schedule length k < length := by omega
    rw [if_pos hmore, hnat]
    generalize hlen : schedule.result k (length - moved schedule length k) = len
    dsimp only
    by_cases hstop : len ≤ 0
    · rw [if_pos hstop]
      exact Ran.stop hlt hlen hstop
    · have hmoved : moved schedule length (k + 1) = moved schedule length k + len.toNat := by rw [moved, hlen]
      have hbound := schedule.le k (length - moved schedule length k)
      rw [if_neg hstop, ← hmoved]
      have hrest := ran_loop schedule (k + 1) (left - len) (by omega) (by omega)
      exact Ran.cons hlt hlen (Int.not_le.mp hstop) hrest
  · rw [if_neg hmore]
    exact Ran.nil (by omega)
termination_by length - moved schedule length k
decreasing_by omega

/-! ## The functions -/

/-- The lengths that are positive as an `int64_t`. -/
theorem toInt64_of_lt (h : length < 2 ^ 63) : toInt64 length = length := by
  unfold toInt64
  exact Int.bmod_eq_of_le (by omega) (by omega)

theorem toInt64_of_ge (hlow : 2 ^ 63 ≤ length) (hhigh : length < 2 ^ 64) : toInt64 length ≤ 0 := by
  unfold toInt64
  rw [Int.bmod_def]
  omega

theorem toInt32_result (schedule : Schedule) (k n : Nat) :
    toInt32 (schedule.result k n) = schedule.result k n := by
  obtain ⟨hlow, hhigh⟩ := schedule.int k n
  have hmax : intMax = 2 ^ 31 - 1 := rfl
  unfold toInt32
  exact Int.bmod_eq_of_le (by omega) (by omega)

/-- What is returned from within the loop is an `int`. -/
theorem Ran.toInt32_result {transfers : List Transfer} {len : Int} (h : Ran schedule length k transfers (some len)) :
    toInt32 len = len := by
  rcases h.ends with ⟨front, t, rfl, -, -, hresult, -⟩ | ⟨-, hresult, -⟩
  · have hlast := h.answered front.length (by rw [List.length_append]; exact Nat.lt_succ_self _)
    rw [List.getElem_append_right (Nat.le_refl _)] at hlast
    simp only [Nat.sub_self, List.getElem_cons_zero] at hlast
    rw [Option.some.inj hresult, hlast, Stream.toInt32_result]
  · cases hresult

theorem fixSize_of_ge (hlow : 2 ^ 63 ≤ length) (hhigh : length < 2 ^ 64) :
    fixSize schedule length = ([], toInt32 length) := by
  have hloop : loop schedule 0 0 (toInt64 length) = ([], none) := by
    rw [loop, if_neg (Int.not_lt.mpr (toInt64_of_ge hlow hhigh))]
  rw [fixSize, hloop]
  rfl

/-- What the functions do with a length that is positive as an `int64_t`. -/
theorem transfers_fixSize_iff (hlt : length < 2 ^ 63) :
    Transfers schedule length (fixSize schedule length).1 (fixSize schedule length).2 ↔
      Stops schedule length ∨ 0 < toInt32 length := by
  have hran := ran_loop schedule 0 length (Nat.zero_le length) (Int.sub_zero _).symm
  have hstops : StopsFrom schedule length 0 ↔ Stops schedule length := by
    simp only [StopsFrom, Stops, ge_iff_le, Nat.zero_le, true_and]
  rw [moved] at hran
  rw [fixSize, toInt64_of_lt hlt]
  dsimp only
  generalize loop schedule 0 0 length = called at hran
  obtain ⟨transfers, result⟩ := called
  have hint := fun len (hlen : result = some len) => Ran.toInt32_result (hlen ▸ hran)
  obtain ⟨hanswered, hconsecutive, hinside, hends⟩ := hran
  rw [hstops, moved, Nat.zero_add] at hends
  simp only [Nat.zero_add] at hanswered
  dsimp only
  rcases hends with ⟨front, t, rfl, hfront, hstop, rfl, htotal, hs⟩ | ⟨hall, rfl, htotal, hs⟩
  · rw [Option.getD_some, hint t.result rfl]
    exact iff_of_true ⟨hanswered, hconsecutive, hinside, .inl ⟨front, t, rfl, hfront, hstop, rfl, htotal⟩,
      iff_of_true hstop htotal⟩ (.inl hs)
  · rw [Option.getD_none, or_iff_right hs]
    constructor
    · intro h
      refine Int.not_le.mp fun hle => ?_
      exact Nat.ne_of_lt (h.fails_iff.mp hle) htotal
    · intro hrt
      exact ⟨hanswered, hconsecutive, hinside, .inr ⟨hall, htotal, hrt⟩,
        iff_of_false (Int.not_le.mpr hrt) (Nat.not_lt.mpr htotal.ge)⟩

/--
**A buffer is moved or the failure is returned**, for every length and every schedule, if and only if the length is
positive as an `int64_t`, and a result ends the loop or the length is positive as an `int` as well.
-/
theorem transfers_iff (schedule : Schedule) (length : UInt64) :
    (Transfers schedule length.toNat (readFixSize schedule length.toNat).1 (readFixSize schedule length.toNat).2 ∧
      Transfers schedule length.toNat (writeFixSize schedule length.toNat).1
        (writeFixSize schedule length.toNat).2) ↔
      length.toNat < 2 ^ 63 ∧ (Stops schedule length.toNat ∨ 0 < toInt32 length.toNat) := by
  unfold readFixSize writeFixSize
  rw [and_self_iff]
  by_cases hlt : length.toNat < 2 ^ 63
  · rw [and_iff_right hlt, transfers_fixSize_iff hlt]
  · -- the loop is not entered, and no byte is moved
    refine iff_of_false (fun h => ?_) fun h => hlt h.1
    rw [fixSize_of_ge (Nat.not_lt.mp hlt) length.toNat_lt] at h
    rcases h.ends with ⟨front, t, heq, -⟩ | ⟨-, htotal, -⟩
    · exact List.append_ne_nil_of_right_ne_nil front (List.cons_ne_nil t []) heq.symm
    · have hzero : length.toNat = 0 := htotal.symm
      omega

/-- Every call moves all that it is asked for, up to the greatest `int`. -/
def greedy : Schedule where
  result _ length := (min length intMax : Nat)
  le _ length := Int.ofNat_le.mpr (Nat.min_le_left length intMax)
  int _ length := ⟨by omega, Int.ofNat_le.mpr (Nat.min_le_right length intMax)⟩

theorem greedy_pos (k : Nat) {n : Nat} (h : 0 < n) : 0 < greedy.result k n := by
  have hmax : 0 < intMax := by decide
  exact Int.natCast_pos.mpr (Nat.lt_min.mpr ⟨h, hmax⟩)

/-- `2 ^ 31` bytes are moved, and a negative number is returned. -/
theorem not_transfers : ¬∀ (schedule : Schedule) (length : UInt64), 1 ≤ length →
    Transfers schedule length.toNat (readFixSize schedule length.toNat).1 (readFixSize schedule length.toNat).2 ∧
      Transfers schedule length.toNat (writeFixSize schedule length.toNat).1
        (writeFixSize schedule length.toNat).2 := by
  intro hall
  have hlength : (2147483648 : UInt64).toNat < 2 ^ 63 := by decide
  have hread := (hall greedy 2147483648 (by decide)).1
  obtain ⟨k, hlt, hstop⟩ | hint := (transfers_fixSize_iff hlength).mp hread
  · exact Int.not_lt.mpr hstop (greedy_pos k (Nat.sub_pos_of_lt hlt))
  · exact absurd hint (by decide)

/-! ## The bytes that are moved -/

/-- Consecutive calls move the bytes of one slice of the buffer. -/
theorem Consecutive.flatMap_slice {transfers : List Transfer} {p : Nat} (h : Consecutive p transfers)
    (buffer : List Byte) :
    (transfers.flatMap fun t => slice buffer t.offset (t.offset + t.result.toNat)) =
      slice buffer p (p + total transfers) := by
  induction transfers generalizing p with
  | nil => exact (slice_self buffer p).symm
  | cons t transfers ih =>
    obtain ⟨rfl, hrest⟩ := h
    rw [List.flatMap_cons, ih hrest, total_cons, ← Nat.add_assoc]
    exact slice_append_slice (Nat.le_add_right _ _) (Nat.le_add_right _ _)

section

variable {transfer : List Byte → Nat → Int → Option (Int × List Byte)} {outcomes : Nat → Int}
  (content : Nat → List Byte)

/-- A transfer that takes the bytes at its offset makes the loop take those of all calls. -/
theorem fixSize_loop_eq (hschedule : ∀ k n, schedule.result k n = Net.FixSize.transferred (outcomes k) n)
    (htransfer : ∀ offset left outcome, offset + left ≤ length →
      transfer (content offset) left outcome =
        some (Net.FixSize.transferred outcome left, content (offset + (Net.FixSize.transferred outcome left).toNat)))
    (k offset left : Nat) (hin : offset + left ≤ length) :
    Net.FixSize.loop transfer outcomes (content offset) k left =
      some ((loop schedule k offset left).2, content (offset + total (loop schedule k offset left).1)) := by
  rw [Net.FixSize.loop, loop, Int.toNat_natCast]
  by_cases hzero : left = 0
  · rw [if_pos hzero, if_neg (by omega)]
    rfl
  · have hbound := schedule.le k left
    rw [if_neg hzero, if_pos (by omega), htransfer offset left (outcomes k) hin, ← hschedule k left]
    generalize schedule.result k left = len at hbound
    dsimp only
    by_cases hstop : len ≤ 0
    · rw [if_pos hstop, if_pos hstop, total_cons]
      rfl
    · have hnat : (left : Int) - len = ((left - len.toNat : Nat) : Int) := by omega
      rw [if_neg hstop, if_neg hstop, hnat,
        fixSize_loop_eq hschedule htransfer (k + 1) (offset + len.toNat) (left - len.toNat) (by omega)]
      dsimp only
      rw [total_cons, ← Nat.add_assoc]
termination_by left

theorem fixSize_eq (hschedule : ∀ k n, schedule.result k n = Net.FixSize.transferred (outcomes k) n)
    (htransfer : ∀ offset left outcome, offset + left ≤ length →
      transfer (content offset) left outcome =
        some (Net.FixSize.transferred outcome left, content (offset + (Net.FixSize.transferred outcome left).toNat)))
    (hempty : content 0 = []) (hlt : length < 2 ^ 63) :
    Net.FixSize.fixSize transfer outcomes [] length =
      some ((fixSize schedule length).2, content (total (fixSize schedule length).1)) := by
  have hran := ran_loop schedule 0 length (Nat.zero_le length) (Int.sub_zero _).symm
  have hloop := fixSize_loop_eq content hschedule htransfer 0 0 length (Nat.le_of_eq (Nat.zero_add length))
  rw [moved] at hran
  rw [hempty, Nat.zero_add] at hloop
  rw [Net.FixSize.fixSize, fixSize, Net.FixSize.leftOf, toInt64_of_lt hlt, Int.toNat_natCast, hloop]
  dsimp only
  generalize loop schedule 0 0 length = called at hran
  obtain ⟨transfers, result⟩ := called
  rw [Option.map_some]
  dsimp only
  cases result with
  | none => rw [Option.getD_none, Option.getD_none]
  | some len => rw [Option.getD_some, Option.getD_some, hran.toInt32_result]

end

/-- `writeFixSize` on a `SocketStream` sends the first bytes of the buffer. -/
theorem writeFixSize_eq {outcomes : Nat → Int} {buffer : List Byte}
    (hschedule : ∀ k n, schedule.result k n = Net.FixSize.transferred (outcomes k) n)
    (hbuffer : length ≤ buffer.length) (hlt : length < 2 ^ 63) :
    Net.FixSize.writeFixSize buffer outcomes length =
      some ((writeFixSize schedule length).2, buffer.take (total (writeFixSize schedule length).1)) := by
  refine fixSize_eq (fun n => buffer.take n) hschedule (fun offset left outcome hin => ?_) List.take_zero hlt
  have hle : offset ≤ buffer.length := by omega
  have hmoved : (Net.FixSize.transferred outcome left).toNat ≤ left := by
    unfold Net.FixSize.transferred
    omega
  have hcat : buffer.take offset ++ slice buffer offset (offset + (Net.FixSize.transferred outcome left).toNat) =
      buffer.take (offset + (Net.FixSize.transferred outcome left).toNat) :=
    slice_append_slice (Nat.zero_le offset) (Nat.le_add_right _ _)
  rw [Net.FixSize.write, List.length_take_of_le hle, if_pos (by omega), hcat]

/-- `readFixSize` on a `SocketStream` stores the first bytes that arrive. -/
theorem readFixSize_eq {outcomes : Nat → Int} (incoming : Nat → Byte)
    (hschedule : ∀ k n, schedule.result k n = Net.FixSize.transferred (outcomes k) n) (hlt : length < 2 ^ 63) :
    Net.FixSize.readFixSize incoming outcomes length =
      some ((readFixSize schedule length).2,
        Net.FixSize.arriving incoming 0 (total (readFixSize schedule length).1)) := by
  refine fixSize_eq (fun n => Net.FixSize.arriving incoming 0 n) hschedule (fun offset left outcome _ => ?_) rfl hlt
  have hlen : (Net.FixSize.arriving incoming 0 offset).length = offset := by
    rw [Net.FixSize.arriving, List.length_map, List.length_range']
  have hcat : List.range' 0 offset ++ List.range' offset (Net.FixSize.transferred outcome left).toNat =
      List.range' 0 (offset + (Net.FixSize.transferred outcome left).toNat) := by
    rw [← List.range'_append_1, Nat.zero_add]
  rw [Net.FixSize.read, hlen]
  unfold Net.FixSize.arriving
  rw [← List.map_append, hcat]

end Nemo.Stream
