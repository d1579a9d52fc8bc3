import Nemo.Coroutine.Balance
import Nemo.Infra.Level

/-!
# `balanceActive` levels the active processors

The first loop takes from every active processor what it has above the average, the second one gives to every
active processor what it misses, and what is left goes to the first one of them (`balanceActive_levels`).
-/

namespace Nemo.Coroutine

open Function (update)
open ConcurrentLinkedDeque (popFrontBulk popBackBulk popFrontBulk_eq popBackBulk_eq)
open Infra.Level

variable {n : Nat}

/-- `runnableTaskCount` -/
def Processor.runnableTaskCount (P : Processor) : Nat := P.runQue.length + P.newQue.length

/-- The loads of the processors of a map. -/
def loadsOf (actives : List (Load × Fin n)) : List Nat := actives.map fun x => x.1.val.toNat

theorem runnableTaskCount_eq (P : Processor) : P.runnableTaskCount = P.runnable.card := by
  rw [Processor.runnable, Multiset.card_add, Multiset.coe_card, Multiset.coe_card, Nat.add_comm]
  rfl

/-! ## One processor -/

theorem runnableTaskCount_addTask (P : Processor) (tasks : List TaskId) :
    (P.addTask tasks).runnableTaskCount = P.runnableTaskCount + tasks.length := by
  rw [runnableTaskCount_eq, runnableTaskCount_eq, runnable_addTask, Multiset.card_add, Multiset.coe_card]

/-- From `newQue_`, and if it has not got enough tasks, from `runQue_`. -/
theorem length_steal {P : Processor} {size : UInt64} (hpos : 0 < size.toNat)
    (h : size.toNat ≤ P.runnableTaskCount) : (P.steal size).1.length = size.toNat := by
  unfold Processor.runnableTaskCount at h
  unfold Processor.steal stolenNew
  rw [if_pos hpos, popBackBulk_eq]
  dsimp only
  split
  · rw [popBackBulk_eq]
    dsimp only
    rw [List.length_append, List.length_drop, List.length_drop]
    omega
  · next hlt =>
    rw [List.length_drop] at hlt ⊢
    omega

theorem runnableTaskCount_steal {P : Processor} {size : UInt64} (hpos : 0 < size.toNat)
    (h : size.toNat ≤ P.runnableTaskCount) :
    (P.steal size).2.runnableTaskCount = P.runnableTaskCount - size.toNat := by
  have hcard := congrArg Multiset.card (runnable_steal P size)
  rw [Multiset.card_add, Multiset.coe_card, length_steal hpos h, ← runnableTaskCount_eq,
    ← runnableTaskCount_eq] at hcard
  omega

/-! ## The loops -/

theorem stealUpper_above {avg : UInt64} {load : Load} (h : ¬ load.val ≤ avg) (i : Fin n)
    (rest : List (Load × Fin n)) (tasks : List TaskId) (procs : Fin n → Processor) :
    stealUpper avg ((load, i) :: rest) tasks procs =
      stealUpper avg rest (tasks ++ ((procs i).steal (load.val - avg)).1)
        (update procs i ((procs i).steal (load.val - avg)).2) := by
  rw [stealUpper, if_neg h]
  rfl

/-- What is above the average is taken, and nobody else is touched. -/
theorem stealUpper_levels (avg : UInt64) : ∀ (upper : List (Load × Fin n)) (tasks : List TaskId)
    (procs : Fin n → Processor), upper.Pairwise (fun x y => y.1 ≤ x.1) → (upper.map Prod.snd).Nodup →
    (∀ x ∈ upper, (procs x.2).runnableTaskCount = x.1.val.toNat) →
    (stealUpper avg upper tasks procs).1.length = tasks.length + surplus avg.toNat (loadsOf upper) ∧
      (∀ x ∈ upper, ((stealUpper avg upper tasks procs).2 x.2).runnableTaskCount =
        min x.1.val.toNat avg.toNat) ∧
      ∀ i ∉ upper.map Prod.snd, (stealUpper avg upper tasks procs).2 i = procs i
  | [], _, _, _, _, _ => ⟨rfl, nofun, fun _ _ => rfl⟩
  | (load, i) :: rest, tasks, procs, hsorted, hnodup, hcount => by
    obtain ⟨hle, hsorted'⟩ := List.pairwise_cons.mp hsorted
    obtain ⟨hnew, hnodup'⟩ := List.nodup_cons.mp hnodup
    obtain ⟨hload, hcount'⟩ := List.forall_mem_cons.mp hcount
    by_cases hbelow : load.val ≤ avg
    · -- so are all that follow
      have hall : ∀ x ∈ (load, i) :: rest, x.1.val.toNat ≤ avg.toNat := by
        refine List.forall_mem_cons.mpr ⟨UInt64.le_iff_toNat_le.mp hbelow, fun x hx => ?_⟩
        exact Nat.le_trans (UInt64.le_iff_toNat_le.mp (hle x hx)) (UInt64.le_iff_toNat_le.mp hbelow)
      rw [stealUpper, if_pos hbelow]
      refine ⟨?_, fun x hx => ?_, fun _ _ => rfl⟩
      · rw [loadsOf, surplus_eq_zero (List.forall_mem_map.mpr hall)]
        rfl
      · rw [hcount x hx, Nat.min_eq_left (hall x hx)]
    · rw [stealUpper_above hbelow]
      have habove := hbelow
      rw [UInt64.le_iff_toNat_le, Nat.not_le] at habove
      have hsub : (load.val - avg).toNat = load.val.toNat - avg.toNat :=
        UInt64.toNat_sub_of_le _ _ (UInt64.le_iff_toNat_le.mpr (Nat.le_of_lt habove))
      have hpos : 0 < (load.val - avg).toNat := by omega
      have henough : (load.val - avg).toNat ≤ (procs i).runnableTaskCount := by
        show _ ≤ (procs (load, i).2).runnableTaskCount
        rw [hload, hsub]
        exact Nat.sub_le _ _
      have hother : ∀ x ∈ rest, update procs i ((procs i).steal (load.val - avg)).2 x.2 = procs x.2 :=
        fun x hx => Function.update_of_ne (ne_of_mem_of_not_mem (List.mem_map_of_mem hx) hnew) _ _
      obtain ⟨hlen, hmin, hframe⟩ := stealUpper_levels avg rest
        (tasks ++ ((procs i).steal (load.val - avg)).1) _ hsorted' hnodup'
        fun x hx => (congrArg _ (hother x hx)).trans (hcount' x hx)
      refine ⟨?_, List.forall_mem_cons.mpr ⟨?_, hmin⟩, fun j hj => ?_⟩
      · rw [hlen, List.length_append, length_steal hpos henough, hsub, Nat.add_assoc]
        rfl
      · rw [hframe i hnew, Function.update_self, runnableTaskCount_steal hpos henough, hsub]
        have hload' : (procs i).runnableTaskCount = load.val.toNat := hload
        show _ = min load.val.toNat avg.toNat
        omega
      · obtain ⟨hji, hjr⟩ := not_or.mp (List.mem_cons.not.mp hj)
        exact (hframe j hjr).trans (Function.update_of_ne hji _ _)

/-- What is missing below the average is given, and nobody else is touched. -/
theorem giveBelow_levels (avg : UInt64) : ∀ (below : List (Load × Fin n)) (tasks : List TaskId)
    (procs : Fin n → Processor), below.Pairwise (fun x y => x.1 ≤ y.1) → (below.map Prod.snd).Nodup →
    (∀ x ∈ below, (procs x.2).runnableTaskCount = min x.1.val.toNat avg.toNat) →
    deficit avg.toNat (loadsOf below) ≤ tasks.length →
    (giveBelow avg below tasks procs).1.length =
        tasks.length - deficit avg.toNat (loadsOf below) ∧
      (∀ x ∈ below, ((giveBelow avg below tasks procs).2 x.2).runnableTaskCount = avg.toNat) ∧
      ∀ i ∉ below.map Prod.snd, (giveBelow avg below tasks procs).2 i = procs i
  | [], _, _, _, _, _, _ => ⟨rfl, nofun, fun _ _ => rfl⟩
  | (size, i) :: rest, tasks, procs, hsorted, hnodup, hcount, henough => by
    obtain ⟨hle, hsorted'⟩ := List.pairwise_cons.mp hsorted
    obtain ⟨hnew, hnodup'⟩ := List.nodup_cons.mp hnodup
    obtain ⟨hsize, hcount'⟩ := List.forall_mem_cons.mp hcount
    rw [giveBelow]
    split
    · next habove =>
      have hall : ∀ x ∈ (size, i) :: rest, avg.toNat ≤ x.1.val.toNat := by
        refine List.forall_mem_cons.mpr ⟨UInt64.le_iff_toNat_le.mp habove, fun x hx => ?_⟩
        exact Nat.le_trans (UInt64.le_iff_toNat_le.mp habove) (UInt64.le_iff_toNat_le.mp (hle x hx))
      refine ⟨?_, fun x hx => ?_, fun _ _ => rfl⟩
      · rw [loadsOf, deficit_eq_zero (List.forall_mem_map.mpr hall)]
        rfl
      · rw [hcount x hx, Nat.min_eq_right (hall x hx)]
    · next hbelow =>
      rw [ge_iff_le, UInt64.le_iff_toNat_le, Nat.not_le] at hbelow
      have hsub : (avg - size.val).toNat = avg.toNat - size.val.toNat :=
        UInt64.toNat_sub_of_le _ _ (UInt64.le_iff_toNat_le.mpr (Nat.le_of_lt hbelow))
      have hdeficit : deficit avg.toNat (loadsOf ((size, i) :: rest)) =
          avg.toNat - size.val.toNat + deficit avg.toNat (loadsOf rest) := rfl
      rw [hdeficit] at henough ⊢
      rw [popFrontBulk_eq, hsub]
      dsimp only
      generalize hnow : tasks.take (avg.toNat - size.val.toNat) = now
      have hlennow : now.length = avg.toNat - size.val.toNat := by
        rw [← hnow, List.length_take]
        omega
      have hother : ∀ x ∈ rest, give procs i now x.2 = procs x.2 :=
        fun x hx => Function.update_of_ne (ne_of_mem_of_not_mem (List.mem_map_of_mem hx) hnew) _ _
      obtain ⟨hlen, havg, hframe⟩ := giveBelow_levels avg rest
        (tasks.drop (avg.toNat - size.val.toNat)) _ hsorted' hnodup'
        (fun x hx => (congrArg _ (hother x hx)).trans (hcount' x hx))
        (by rw [List.length_drop]; omega)
      refine ⟨?_, List.forall_mem_cons.mpr ⟨?_, havg⟩, fun j hj => ?_⟩
      · rw [hlen, List.length_drop]
        omega
      · show ((giveBelow avg rest _ _).2 i).runnableTaskCount = avg.toNat
        have hsize' : (procs i).runnableTaskCount = min size.val.toNat avg.toNat := hsize
        rw [hframe i hnew, give, Function.update_self, runnableTaskCount_addTask, hsize', hlennow]
        omega
      · obtain ⟨hji, hjr⟩ := not_or.mp (List.mem_cons.not.mp hj)
        exact (hframe j hjr).trans (Function.update_of_ne hji _ _)

/-! ## `balanceActive` -/

/-- A load that is read while its processor rests is the number of its tasks. -/
def RecordsCounts (procs : Fin n → Processor) (actives : ActiveMap n) : Prop :=
  ∀ x ∈ actives.toList, (procs x.2).runnableTaskCount = x.1.val.toNat

/--
**Load balancing levels the active processors.** Each of them has `S / n` tasks in the end, and the first
one the remainder in addition.
-/
theorem balanceActive_levels (threshold : UInt64 → UInt64) (procs : Fin n → Processor)
    (actives : ActiveMap n) (hnodup : (actives.toList.map Prod.snd).Nodup)
    (hcount : RecordsCounts procs actives) (activeTaskCount : UInt64)
    (hsum : activeTaskCount.toNat = (loadsOf actives.toList).sum)
    (hthreshold : ¬ actives.begin.1.val >
      threshold (UInt64.ofNat (activeTaskCount.toNat / actives.toList.length))) :
    ∀ x ∈ actives.toList,
      (balanceActive threshold procs actives activeTaskCount x.2).runnableTaskCount =
        activeTaskCount.toNat / actives.toList.length +
          if x.2 = actives.begin.2 then activeTaskCount.toNat % actives.toList.length else 0 := by
  intro x hx
  have havg : (UInt64.ofNat (activeTaskCount.toNat / actives.toList.length)).toNat =
      activeTaskCount.toNat / actives.toList.length := by
    have hlt := activeTaskCount.toNat_lt
    have hle := Nat.div_le_self activeTaskCount.toNat actives.toList.length
    exact UInt64.toNat_ofNat_of_lt' (Nat.lt_of_le_of_lt hle hlt)
  have hlength : actives.toList.length = (loadsOf actives.toList).length := (List.length_map _).symm
  have hsurplus := surplus_average (loadsOf actives.toList)
  rw [← hsum, ← hlength, ← havg] at hsurplus
  unfold balanceActive
  dsimp only
  rw [if_neg hthreshold]
  generalize UInt64.ofNat (activeTaskCount.toNat / actives.toList.length) = avg at havg hsurplus ⊢
  rw [← havg]
  obtain ⟨hlen, hmin, -⟩ := stealUpper_levels avg actives.toList.reverse [] procs
    (List.pairwise_reverse.mpr actives.sorted) (by rwa [List.map_reverse, List.nodup_reverse])
    fun y hy => hcount y (List.mem_reverse.mp hy)
  rw [loadsOf, List.map_reverse, surplus_reverse, List.length_nil, Nat.zero_add] at hlen
  generalize stealUpper avg actives.toList.reverse [] procs = stolen at hlen hmin ⊢
  obtain ⟨tasks, procs₁⟩ := stolen
  dsimp only at hlen hmin ⊢
  have hmin' : ∀ y ∈ actives.toList, (procs₁ y.2).runnableTaskCount = min y.1.val.toNat avg.toNat :=
    fun y hy => hmin y (List.mem_reverse.mpr hy)
  change tasks.length = surplus avg.toNat (loadsOf actives.toList) at hlen
  split
  · -- nobody has more than the average, so that everybody has it
    next hempty =>
    rw [List.isEmpty_iff.mp hempty, List.length_nil] at hlen
    have hzero : deficit avg.toNat (loadsOf actives.toList) = 0 := by omega
    have hle := le_of_deficit_eq_zero hzero
    rw [hmin' x hx, Nat.min_eq_right (hle _ (List.mem_map_of_mem hx)), show activeTaskCount.toNat %
      actives.toList.length = 0 by omega, ite_self, Nat.add_zero]
  · obtain ⟨hrest, hlevel, -⟩ := giveBelow_levels avg actives.toList tasks procs₁ actives.sorted hnodup
      hmin' (by omega)
    generalize giveBelow avg actives.toList tasks procs₁ = given at hrest hlevel ⊢
    obtain ⟨rest, procs₂⟩ := given
    dsimp only at hrest hlevel ⊢
    have hremainder : rest.length = activeTaskCount.toNat % actives.toList.length := by omega
    rw [← hremainder, giveRest]
    split
    · next hempty =>
      rw [hlevel x hx, List.isEmpty_iff.mp hempty, List.length_nil, ite_self, Nat.add_zero]
    · by_cases hbegin : x.2 = actives.begin.2
      · rw [if_pos hbegin, give, ← hbegin, Function.update_self, runnableTaskCount_addTask, hlevel x hx]
      · rw [if_neg hbegin, give, Function.update_of_ne hbegin, hlevel x hx, Nat.add_zero]

/-- The second processor has six tasks, and three of them are taken from both of its queues. -/
def oneAndSix : Fin 2 → Processor := ![{ newQue := [1] }, { newQue := [2, 3], runQue := [4, 5, 6, 7] }]

def oneAndSixActive : ActiveMap 2 where
  toList := [(⟨1, by decide⟩, 0), (⟨6, by decide⟩, 1)]
  sorted := List.pairwise_pair.mpr (show (1 : UInt64) ≤ 6 by decide)
  nonempty := by decide

theorem balanceActive_levels_oneAndSix :
    (balanceActive (fun avg => avg) oneAndSix oneAndSixActive 7 0).runnableTaskCount = 4 ∧
      (balanceActive (fun avg => avg) oneAndSix oneAndSixActive 7 1).runnableTaskCount = 3 := by
  have hlevels := balanceActive_levels (fun avg => avg) oneAndSix oneAndSixActive (by decide)
    (List.forall_mem_cons.mpr ⟨rfl, List.forall_mem_singleton.mpr rfl⟩) 7 rfl (by decide)
  obtain ⟨hfirst, hrest⟩ := List.forall_mem_cons.mp hlevels
  exact ⟨hfirst, hrest _ List.mem_cons_self⟩

end Nemo.Coroutine
