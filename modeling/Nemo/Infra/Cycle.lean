import Mathlib.Data.Int.CardIntervalMod
import Mathlib.Data.List.FinRange
import Mathlib.Data.List.Rotate

/-!
# Going round

The elements of `Fin n` with a property, visited in their order, over and over again. `member p h r` is the `r`th
of them, where counting goes on behind the last one. The next of them behind a given place is found in the list of
all places, rotated (`find?_rotate_eq_member`).

Going on by a step that is coprime to the number of members visits them evenly (`count_step`).
-/

namespace Infra.Cycle

variable {n : Nat}

/-- The elements with the property. -/
def members (p : Fin n → Bool) : List (Fin n) := (List.finRange n).filter p

variable {p : Fin n → Bool} (h : members p ≠ [])

/-- The `r`th element with the property, going round. -/
def member (h : members p ≠ []) (r : Nat) : Fin n :=
  (members p).get ⟨r % (members p).length, Nat.mod_lt _ (List.length_pos_of_ne_nil h)⟩

theorem member_mem (r : Nat) : p (member h r) = true :=
  (List.mem_filter.mp (List.get_mem (members p) _)).2

theorem nodup_members (p : Fin n → Bool) : (members p).Nodup := (List.nodup_finRange n).filter p

theorem member_inj {r s : Nat} :
    member h r = member h s ↔ r % (members p).length = s % (members p).length := by
  unfold member
  rw [(nodup_members p).get_inj_iff, Fin.mk.injEq]

/-- Every element with the property comes up. -/
theorem exists_member {i : Fin n} (hi : p i = true) : ∃ r < (members p).length, member h r = i := by
  have hmem : i ∈ members p := List.mem_filter.mpr ⟨List.mem_finRange i, hi⟩
  obtain ⟨r, hr, heq⟩ := List.getElem_of_mem hmem
  refine ⟨r, hr, ?_⟩
  unfold member
  simp only [Nat.mod_eq_of_lt hr]
  exact heq

/-- The places up to `i`, without and with `i`. -/
theorem take_finRange (i : Fin n) :
    (List.finRange n).take (i + 1) = (List.finRange n).take i ++ [i] := by
  rw [List.take_add_one, List.getElem?_eq_getElem (by rw [List.length_finRange]; exact i.isLt),
    List.getElem_finRange]
  rfl

/-- How many elements with the property there are up to a place. -/
def upTo (p : Fin n → Bool) (i : Fin n) : Nat := (((List.finRange n).take (i + 1)).filter p).length

/-- The first element with the property behind a place, going round. -/
theorem find?_rotate_eq_member (i : Fin n) :
    ((List.finRange n).rotate (i + 1)).find? p = some (member h (upTo p i)) := by
  have hsplit : members p = ((List.finRange n).take (i + 1)).filter p ++
      ((List.finRange n).drop (i + 1)).filter p := by
    rw [← List.filter_append, List.take_append_drop]
    rfl
  have hrotate : ((List.finRange n).rotate (i + 1)).filter p = (members p).rotate (upTo p i) := by
    rw [List.rotate_eq_drop_append_take (by rw [List.length_finRange]; exact i.isLt), List.filter_append,
      hsplit, upTo, List.rotate_append_length_eq]
  have hpos := List.length_pos_of_ne_nil h
  rw [← List.head?_filter, hrotate, List.head?_eq_getElem?, List.getElem?_eq_getElem
    (by rwa [List.length_rotate]), List.getElem_rotate]
  simp only [Nat.zero_add]
  rfl

/-- Behind a member comes the next one. -/
theorem upTo_member (r : Nat) : upTo p (member h r) % (members p).length =
    (r + 1) % (members p).length := by
  generalize hi : member h r = i
  have hp : p i = true := hi ▸ member_mem h r
  obtain ⟨s, hs⟩ : ∃ s, s = (((List.finRange n).take i).filter p).length := ⟨_, rfl⟩
  have hupTo : upTo p i = s + 1 := by
    rw [upTo, take_finRange, List.filter_append, List.filter_singleton, hp, List.length_append, hs]
    rfl
  have hsplit : members p = ((List.finRange n).take i).filter p ++
      i :: ((List.finRange n).drop (i + 1)).filter p := by
    rw [← List.singleton_append, ← List.append_assoc, show [i] = [i].filter p by
      rw [List.filter_singleton, hp]; rfl, ← List.filter_append, ← List.filter_append, ← take_finRange,
      List.take_append_drop]
    rfl
  have hlt : s < (members p).length := by
    rw [hsplit, List.length_append, List.length_cons, hs]
    omega
  have hmember : member h s = i := by
    unfold member
    simp only [Nat.mod_eq_of_lt hlt, List.get_eq_getElem]
    have hget : ((((List.finRange n).take i).filter p ++
        i :: ((List.finRange n).drop (i + 1)).filter p))[s]? = some i := by
      rw [hs, List.getElem?_append_right (Nat.le_refl _), Nat.sub_self, List.getElem?_cons_zero]
    rw [← hsplit, List.getElem?_eq_getElem hlt] at hget
    exact Option.some.inj hget
  have hmod : s % (members p).length = r % (members p).length :=
    (member_inj h).mp (hmember.trans hi.symm)
  rw [hupTo, Nat.add_mod, hmod, ← Nat.add_mod]

/-! ## Counting -/

theorem countP_range (p : Nat → Bool) (k : Nat) :
    (List.range k).countP p = Nat.count (fun j => p j = true) k := by
  induction k with
  | zero => rfl
  | succ k ih =>
    rw [List.range_succ, List.countP_append, ih, Nat.count_succ, List.countP_singleton]

/-- A step that is coprime to `m` comes to `i` once in `m` steps. -/
theorem exists_step {m w : Nat} (hm : 0 < m) (hw : Nat.Coprime m w) (c i : Nat) :
    ∃ v, ∀ j, (c + w * j) % m = i % m ↔ j % m = v % m := by
  obtain ⟨v, -, hv⟩ := Nat.exists_mul_mod_eq_of_coprime (i + (m - 1) * c) hw.symm hm.ne'
  have hstart : c + w * v ≡ i [MOD m] := by
    calc c + w * v ≡ c + (i + (m - 1) * c) [MOD m] := Nat.ModEq.add_left c hv
      _ = i + m * c := by
        rw [Nat.sub_mul, Nat.one_mul]
        have := Nat.le_mul_of_pos_left c hm
        omega
      _ ≡ i [MOD m] := by
        rw [Nat.ModEq, Nat.add_mul_mod_self_left]
  refine ⟨v, fun j => ?_⟩
  constructor
  · intro h
    have h' : w * j ≡ w * v [MOD m] := Nat.ModEq.add_left_cancel' c (Nat.ModEq.trans h hstart.symm)
    exact Nat.ModEq.cancel_left_of_coprime hw h'
  · intro h
    have h' : j ≡ v [MOD m] := h
    exact ((h'.mul_left w).add_left c).trans hstart

/-- What is visited in `k` steps of the width `w`. -/
theorem count_step {m w : Nat} (hm : 0 < m) (hw : Nat.Coprime m w) (c i k : Nat) :
    (List.range k).countP (fun j => (c + w * j) % m = i % m) = k / m ∨
      (List.range k).countP (fun j => (c + w * j) % m = i % m) = (k + m - 1) / m := by
  obtain ⟨v, hv⟩ := exists_step hm hw c i
  have hcount : (List.range k).countP (fun j => (c + w * j) % m = i % m) =
      k / m + if v % m < k % m then 1 else 0 := by
    rw [← Nat.count_modEq_card k hm v, countP_range]
    congr 1
    funext j
    rw [decide_eq_true_eq, hv]
    rfl
  rw [hcount]
  split
  · next hlt =>
    right
    have hdiv := Nat.div_add_mod k m
    have hmod := Nat.mod_lt k hm
    have hsplit : k + m - 1 = (k % m - 1) + m * (k / m + 1) := by
      rw [Nat.mul_add]
      omega
    have hsmall : k % m - 1 < m := by omega
    rw [hsplit, Nat.add_mul_div_left _ _ hm, Nat.div_eq_of_lt hsmall, Nat.zero_add]
  · exact .inl rfl

end Infra.Cycle
