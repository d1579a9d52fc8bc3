import Mathlib.Algebra.GroupWithZero.Nat
import Mathlib.Algebra.Order.BigOperators.Group.List
import Mathlib.Algebra.Order.Group.Nat

/-!
# Levelling

Loads are levelled at `a` if what is above `a` is taken away and what is missing below `a` is given.
`surplus` is the first and `deficit` the second; both are cut off at zero for every load.
-/

namespace Infra.Level

/-- What the loads have above `a`. -/
def surplus (a : Nat) (loads : List Nat) : Nat := (loads.map (· - a)).sum

/-- What the loads miss below `a`. -/
def deficit (a : Nat) (loads : List Nat) : Nat := (loads.map (a - ·)).sum

variable {a : Nat} {loads : List Nat}

@[simp] theorem surplus_nil (a : Nat) : surplus a [] = 0 := rfl

@[simp] theorem surplus_cons (a load : Nat) (loads : List Nat) :
    surplus a (load :: loads) = load - a + surplus a loads := rfl

@[simp] theorem deficit_nil (a : Nat) : deficit a [] = 0 := rfl

@[simp] theorem deficit_cons (a load : Nat) (loads : List Nat) :
    deficit a (load :: loads) = a - load + deficit a loads := rfl

theorem surplus_reverse (a : Nat) (loads : List Nat) : surplus a loads.reverse = surplus a loads := by
  rw [surplus, List.map_reverse, List.sum_reverse, surplus]

theorem surplus_eq_zero (h : ∀ load ∈ loads, load ≤ a) : surplus a loads = 0 := by
  induction loads with
  | nil => rfl
  | cons load loads ih =>
    obtain ⟨hload, hrest⟩ := List.forall_mem_cons.mp h
    rw [surplus_cons, ih hrest, Nat.sub_eq_zero_of_le hload]

theorem deficit_eq_zero (h : ∀ load ∈ loads, a ≤ load) : deficit a loads = 0 := by
  induction loads with
  | nil => rfl
  | cons load loads ih =>
    obtain ⟨hload, hrest⟩ := List.forall_mem_cons.mp h
    rw [deficit_cons, ih hrest, Nat.sub_eq_zero_of_le hload]

theorem le_of_deficit_eq_zero (h : deficit a loads = 0) : ∀ load ∈ loads, a ≤ load := by
  induction loads with
  | nil => nofun
  | cons load loads ih =>
    obtain ⟨hload, hrest⟩ := Nat.add_eq_zero_iff.mp h
    exact List.forall_mem_cons.mpr ⟨Nat.le_of_sub_eq_zero hload, ih hrest⟩

/-- Taking the surplus away and giving the deficit makes all loads `a`. -/
theorem sum_add_deficit (a : Nat) (loads : List Nat) :
    loads.sum + deficit a loads = loads.length * a + surplus a loads := by
  induction loads with
  | nil => simp
  | cons load loads ih =>
    rw [List.sum_cons, List.length_cons, Nat.succ_mul, surplus_cons, deficit_cons]
    omega

/-- At the average, the surplus is the deficit and the remainder. -/
theorem surplus_average (loads : List Nat) :
    surplus (loads.sum / loads.length) loads =
      deficit (loads.sum / loads.length) loads + loads.sum % loads.length := by
  have hsum := sum_add_deficit (loads.sum / loads.length) loads
  have hdiv := Nat.div_add_mod loads.sum loads.length
  omega

/-! ## Filling up -/

/-- How high loads can be filled up with `amount` more. -/
def level (amount : Nat) (loads : List Nat) : Nat := (amount + loads.sum) / loads.length

/-- The lowest loads are filled up, as far as none of them is above the level; the other ones are above it. -/
structure Filled (amount : Nat) (low high : List Nat) : Prop where
  nonempty : low ≠ []
  le_level : ∀ load ∈ low, load ≤ level amount low
  level_lt : ∀ load ∈ high, level amount low < load

/-- To fill the loads up to their level, everything but the remainder is needed. -/
theorem deficit_level {amount : Nat} (h : ∀ load ∈ loads, load ≤ level amount loads) :
    deficit (level amount loads) loads + (amount + loads.sum) % loads.length = amount := by
  have hsum := sum_add_deficit (level amount loads) loads
  have hdiv := Nat.div_add_mod (amount + loads.sum) loads.length
  rw [surplus_eq_zero h] at hsum
  unfold level at hsum ⊢
  omega

/-- Loads that belong to a higher level do not change what lies below. -/
theorem Filled.not_longer {amount : Nat} {low mid high high' : List Nat} (h : Filled amount low high)
    (h' : Filled amount (low ++ mid) high') (hhigh : high = mid ++ high') : mid = [] := by
  by_contra hmid
  obtain ⟨load, hload⟩ := List.exists_mem_of_ne_nil mid hmid
  -- the level is not higher with them
  have hsum : mid.sum ≤ mid.length * level amount (low ++ mid) :=
    List.sum_le_card_nsmul mid _ fun x hx => h'.le_level x (List.mem_append_right _ hx)
  have hmul : level amount (low ++ mid) * (low ++ mid).length ≤ amount + (low ++ mid).sum :=
    Nat.div_mul_le_self _ _
  rw [List.length_append, List.sum_append, Nat.mul_add, Nat.mul_comm _ mid.length] at hmul
  have hle : level amount (low ++ mid) ≤ level amount low := by
    refine (Nat.le_div_iff_mul_le (List.length_pos_of_ne_nil h.nonempty)).mpr ?_
    omega
  have habove := h.level_lt load (hhigh ▸ List.mem_append_left _ hload)
  have hbelow := h'.le_level load (List.mem_append_right _ hload)
  omega

end Infra.Level
