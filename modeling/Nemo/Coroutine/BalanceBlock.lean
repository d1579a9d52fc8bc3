import Nemo.Coroutine.BalanceActive

/-!
# Where `balanceBlock` puts the stolen tasks

The second loop of `balanceBlock` finds the processors of the lowest loads that the stolen tasks fill up to
one level (`Infra.Level.Filled`), and this level is the average. But `++lowerActive` adds the processor at
which the loop has stopped, whose load is above the average. The third loop comes to it if every processor before it
has missed a task, and then `avg - load` wraps, so that it gets all that is left.

`placesTasks_iff` says when that happens.
-/

namespace Nemo.Coroutine

open Function (update)
open ConcurrentLinkedDeque (popFrontBulk popFrontBulk_eq)
open Infra.Level

variable {n : Nat}

/-! ## The average -/

theorem loadsOf_append (xs ys : List (Load × Fin n)) : loadsOf (xs ++ ys) = loadsOf xs ++ loadsOf ys :=
  List.map_append

theorem length_loadsOf (xs : List (Load × Fin n)) : (loadsOf xs).length = xs.length := List.length_map _

theorem sum_loadsOf_cons (load : Load) (i : Fin n) (xs : List (Load × Fin n)) :
    (loadsOf ((load, i) :: xs)).sum = load.val.toNat + (loadsOf xs).sum := List.sum_cons

/--
The second loop, when it has passed `done`. It finds how many of the processors are filled up.
-/
theorem lowerActive_filled {amount : Nat} : ∀ (rest done : List (Load × Fin n)) (total avg : UInt64),
    done ≠ [] → (done ++ rest).Pairwise (fun x y => x.1 ≤ y.1) →
    total.toNat = amount + (loadsOf done).sum → amount + (loadsOf (done ++ rest)).sum < 2 ^ 64 →
    avg.toNat = level amount (loadsOf done) →
    (∀ load ∈ loadsOf done, load ≤ level amount (loadsOf done)) →
    ∃ low high a, rest = low ++ high ∧
      lowerActive rest total done.length avg = some (a, low ++ high.take 1) ∧
      Filled amount (loadsOf (done ++ low)) (loadsOf high) ∧
      a.toNat = level amount (loadsOf (done ++ low))
  | [], done, total, avg, hne, _, _, _, havg, hle => by
    refine ⟨[], [], avg, rfl, rfl, ⟨?_, ?_, nofun⟩, ?_⟩
    · rw [List.append_nil, loadsOf, Ne, List.map_eq_nil_iff]
      exact hne
    · rwa [List.append_nil]
    · rwa [List.append_nil]
  | (load, i) :: rest, done, total, avg, hne, hsorted, htotal, hfits, havg, hle => by
    have hpos : 0 < done.length := List.length_pos_of_ne_nil hne
    have hsum : (loadsOf (done ++ [(load, i)])).sum = (loadsOf done).sum + load.val.toNat := by
      rw [loadsOf_append, List.sum_append, sum_loadsOf_cons]
      rfl
    have hsplit : done ++ (load, i) :: rest = done ++ [(load, i)] ++ rest := by
      rw [List.append_assoc, List.singleton_append]
    have hlevel : level amount (loadsOf (done ++ [(load, i)])) =
        (amount + ((loadsOf done).sum + load.val.toNat)) / (done.length + 1) := by
      rw [level, hsum, length_loadsOf, List.length_append, List.length_singleton]
    rw [hsplit, loadsOf_append, List.sum_append, hsum] at hfits
    have htotal' : (total + load.val).toNat = amount + (loadsOf (done ++ [(load, i)])).sum := by
      rw [UInt64.toNat_add, htotal, hsum, Nat.mod_eq_of_lt (by omega), Nat.add_assoc]
    have hdiv : (total + load.val).toNat / (done.length + 1) < 2 ^ 64 :=
      Nat.lt_of_le_of_lt (Nat.div_le_self _ _) (total + load.val).toNat_lt
    have havg' : (UInt64.ofNat ((total + load.val).toNat / (done.length + 1))).toNat =
        level amount (loadsOf (done ++ [(load, i)])) := by
      rw [UInt64.toNat_ofNat_of_lt' hdiv, htotal', hsum, hlevel]
    obtain ⟨-, hrest, hcross⟩ := List.pairwise_append.mp hsorted
    rw [lowerActive]
    dsimp only
    by_cases hover : load.val > UInt64.ofNat ((total + load.val).toNat / (done.length + 1))
    · -- the loop stops here, and the sum is what it was before
      have hlt : level amount (loadsOf done) < load.val.toNat := by
        rw [gt_iff_lt, UInt64.lt_iff_toNat_lt, havg', hlevel, Nat.div_lt_iff_lt_mul (Nat.succ_pos _),
          Nat.mul_succ] at hover
        rw [level, length_loadsOf, Nat.div_lt_iff_lt_mul hpos]
        omega
      rw [if_pos hover, if_neg (Nat.ne_of_gt hpos), UInt64.add_sub_cancel]
      refine ⟨[], (load, i) :: rest, _, rfl, rfl, ⟨?_, ?_, ?_⟩, ?_⟩
      · rw [List.append_nil, loadsOf, Ne, List.map_eq_nil_iff]
        exact hne
      · rwa [List.append_nil]
      · rw [List.append_nil]
        refine List.forall_mem_map.mpr (List.forall_mem_cons.mpr ⟨hlt, fun x hx => ?_⟩)
        exact Nat.lt_of_lt_of_le hlt (UInt64.le_iff_toNat_le.mp ((List.pairwise_cons.mp hrest).1 x hx))
      · rw [List.append_nil, level, length_loadsOf, ← htotal, UInt64.toNat_ofNat_of_lt']
        exact Nat.lt_of_le_of_lt (Nat.div_le_self _ _) total.toNat_lt
    · rw [if_neg hover]
      rw [gt_iff_lt, UInt64.lt_iff_toNat_lt, havg', Nat.not_lt] at hover
      have hle' : ∀ x ∈ loadsOf (done ++ [(load, i)]),
          x ≤ level amount (loadsOf (done ++ [(load, i)])) := by
        refine List.forall_mem_map.mpr fun x hx => ?_
        rcases List.mem_append.mp hx with hx | hx
        · exact Nat.le_trans (UInt64.le_iff_toNat_le.mp (hcross x hx _ List.mem_cons_self)) hover
        · rwa [List.mem_singleton.mp hx]
      obtain ⟨low, high, a, heq, hloop, hfilled, ha⟩ := lowerActive_filled rest (done ++ [(load, i)])
        (total + load.val) _ (List.concat_ne_nil _ _) (hsplit ▸ hsorted) htotal'
        (by rw [loadsOf_append, List.sum_append, hsum]; exact hfits) havg' hle'
      rw [List.length_append, List.length_singleton] at hloop
      rw [hloop]
      rw [List.append_assoc, List.singleton_append] at hfilled ha
      exact ⟨(load, i) :: low, high, a, by rw [heq, List.cons_append], rfl, hfilled, ha⟩

/-- The first processor is always filled up. -/
theorem exists_filled (actives : ActiveMap n) {amount : Nat}
    (hfits : amount + (loadsOf actives.toList).sum < 2 ^ 64) :
    ∃ low high a, actives.toList = low ++ high ∧
      lowerActive actives.toList (UInt64.ofNat amount) 0 0 = some (a, low ++ high.take 1) ∧
      Filled amount (loadsOf low) (loadsOf high) ∧ a.toNat = level amount (loadsOf low) := by
  obtain ⟨⟨load, i⟩, rest, hcons⟩ := List.exists_cons_of_ne_nil actives.nonempty
  have hsorted := actives.sorted
  rw [hcons] at hsorted hfits ⊢
  have hlt : amount < 2 ^ 64 := by omega
  have hamount : (UInt64.ofNat amount).toNat = amount := UInt64.toNat_ofNat_of_lt' hlt
  have hone : (loadsOf [(load, i)]).sum = load.val.toNat := List.sum_singleton
  have htotal : (UInt64.ofNat amount + load.val).toNat = amount + (loadsOf [(load, i)]).sum := by
    rw [sum_loadsOf_cons] at hfits
    rw [UInt64.toNat_add, hamount, hone]
    exact Nat.mod_eq_of_lt (by omega)
  have hlevel : level amount (loadsOf [(load, i)]) = amount + load.val.toNat := by
    rw [level, hone]
    exact Nat.div_one _
  obtain ⟨low, high, a, heq, hloop, hfilled, ha⟩ := lowerActive_filled rest [(load, i)]
    (UInt64.ofNat amount + load.val) (UInt64.ofNat amount + load.val) (List.cons_ne_nil _ _) hsorted
    htotal hfits (by rw [htotal, hone, hlevel])
    (List.forall_mem_singleton.mpr (by rw [hlevel]; exact Nat.le_add_left _ _))
  refine ⟨(load, i) :: low, high, a, by rw [heq, List.cons_append], ?_, hfilled, ha⟩
  rw [lowerActive]
  dsimp only
  rw [Nat.zero_add, Nat.div_one, UInt64.ofNat_toNat, if_neg]
  · exact congrArg (Option.map _) hloop
  · rw [gt_iff_lt, UInt64.lt_iff_toNat_lt, htotal, hone]
    omega

/-! ## The third loop -/

section

variable {avg : UInt64} {tasks : List TaskId} {procs : Fin n → Processor}

theorem giveLower_nonempty {load : Load} {i : Fin n} (rest : List (Load × Fin n))
    (h : (tasks.take (avg - load.val).toNat) ≠ []) :
    giveLower avg ((load, i) :: rest) tasks procs =
      giveLower avg rest (tasks.drop (avg - load.val).toNat)
        (give procs i (tasks.take (avg - load.val).toNat)) := by
  rw [giveLower, popFrontBulk_eq]
  dsimp only
  rw [if_neg (mt List.isEmpty_iff.mp h)]

theorem giveLower_empty {load : Load} {i : Fin n} (rest : List (Load × Fin n))
    (h : (tasks.take (avg - load.val).toNat) = []) :
    giveLower avg ((load, i) :: rest) tasks procs = (tasks, procs) := by
  have hdrop := List.take_append_drop (avg - load.val).toNat tasks
  rw [h, List.nil_append] at hdrop
  rw [giveLower, popFrontBulk_eq]
  dsimp only
  rw [if_pos (List.isEmpty_iff.mpr h), hdrop]

/-- The third loop touches only the processors that it comes to. -/
theorem giveLower_frame (avg : UInt64) : ∀ (lower : List (Load × Fin n)) (tasks : List TaskId)
    (procs : Fin n → Processor), ∀ i ∉ lower.map Prod.snd, (giveLower avg lower tasks procs).2 i = procs i
  | [], _, _, _, _ => rfl
  | (load, j) :: rest, tasks, procs, i, hi => by
    obtain ⟨hij, hrest⟩ := not_or.mp (List.mem_cons.not.mp hi)
    by_cases h : tasks.take (avg - load.val).toNat = []
    · rw [giveLower_empty rest h]
    · rw [giveLower_nonempty rest h, giveLower_frame avg rest _ _ i hrest]
      exact Function.update_of_ne hij _ _

/-- Processors that miss a task are filled up, one after the other. -/
theorem giveLower_below : ∀ (low tail : List (Load × Fin n)) (tasks : List TaskId)
    (procs : Fin n → Processor), (∀ load ∈ loadsOf low, load < avg.toNat) →
    deficit avg.toNat (loadsOf low) ≤ tasks.length →
    ∃ procs', giveLower avg (low ++ tail) tasks procs =
        giveLower avg tail (tasks.drop (deficit avg.toNat (loadsOf low))) procs' ∧
      ∀ i ∉ low.map Prod.snd, procs' i = procs i
  | [], _, _, procs, _, _ => ⟨procs, rfl, fun _ _ => rfl⟩
  | (load, j) :: low, tail, tasks, procs, hbelow, henough => by
    obtain ⟨hload, hlow⟩ := List.forall_mem_cons.mp hbelow
    have hload' : load.val.toNat < avg.toNat := hload
    have hsub : (avg - load.val).toNat = avg.toNat - load.val.toNat :=
      UInt64.toNat_sub_of_le _ _ (UInt64.le_iff_toNat_le.mpr (Nat.le_of_lt hload'))
    have hdeficit : deficit avg.toNat (loadsOf ((load, j) :: low)) =
      avg.toNat - load.val.toNat + deficit avg.toNat (loadsOf low) := rfl
    rw [hdeficit] at henough ⊢
    have hne : tasks.take (avg - load.val).toNat ≠ [] := by
      refine List.ne_nil_of_length_pos ?_
      rw [List.length_take]
      omega
    obtain ⟨procs', hloop, hframe⟩ := giveLower_below low tail
      (tasks.drop (avg.toNat - load.val.toNat)) (give procs j (tasks.take (avg.toNat - load.val.toNat)))
      hlow (by rw [List.length_drop]; omega)
    refine ⟨procs', ?_, fun i hi => ?_⟩
    · rw [List.cons_append, giveLower_nonempty _ hne, hsub, hloop, List.drop_drop]
    · obtain ⟨hij, hrest⟩ := not_or.mp (List.mem_cons.not.mp hi)
      exact (hframe i hrest).trans (Function.update_of_ne hij _ _)

/-- A processor that misses nothing ends the loop. -/
theorem giveLower_stops : ∀ (low tail : List (Load × Fin n)) (tasks : List TaskId)
    (procs : Fin n → Processor), avg.toNat ∈ loadsOf low →
    ∀ i ∉ low.map Prod.snd, (giveLower avg (low ++ tail) tasks procs).2 i = procs i
  | [], _, _, _, hmem, _, _ => nomatch hmem
  | (load, j) :: low, tail, tasks, procs, hmem, i, hi => by
    obtain ⟨hij, hrest⟩ := not_or.mp (List.mem_cons.not.mp hi)
    rw [List.cons_append]
    by_cases h : tasks.take (avg - load.val).toNat = []
    · rw [giveLower_empty _ h]
    · have hload : avg.toNat ≠ load.val.toNat := by
        intro heq
        rw [UInt64.toNat_inj.mp heq, UInt64.sub_self] at h
        exact h rfl
      have hmem' : avg.toNat ∈ loadsOf low := (List.mem_cons.mp hmem).resolve_left hload
      rw [giveLower_nonempty _ h, giveLower_stops low tail _ _ hmem' i hrest]
      exact Function.update_of_ne hij _ _

end

/-! ## All loops together -/

theorem newQue_addTask (P : Processor) (tasks : List TaskId) :
    (P.addTask tasks).newQue = P.newQue ++ tasks := by
  unfold Processor.addTask Processor.notifiNewQueCondition
  split <;> rfl

section

variable {actives : ActiveMap n} {low high : List (Load × Fin n)} {avg : UInt64} {tasks : List TaskId}
  {procs : Fin n → Processor}

/-- What the third loop and the lines behind it make of the processors. -/
def placed (actives : ActiveMap n) (avg : UInt64) (lower : List (Load × Fin n)) (tasks : List TaskId)
    (procs : Fin n → Processor) : Fin n → Processor :=
  giveRest actives (giveLower avg lower tasks procs).1 (giveLower avg lower tasks procs).2

theorem giveRest_of_ne {i : Fin n} (h : i ≠ actives.begin.2) : giveRest actives tasks procs i = procs i := by
  unfold giveRest
  split
  · rfl
  · exact Function.update_of_ne h _ _

/-- The processor of the least load is filled up, so it is not above the level. -/
theorem begin_ne (hactives : actives.toList = low ++ high) (hlow : low ≠ [])
    (hnodup : (actives.toList.map Prod.snd).Nodup) {x : Load × Fin n} (hx : x ∈ high) :
    x.2 ≠ actives.begin.2 ∧ x.2 ∉ low.map Prod.snd := by
  obtain ⟨first, rest, rfl⟩ := List.exists_cons_of_ne_nil hlow
  have hbegin : actives.begin = first := by
    unfold ActiveMap.begin
    simp only [hactives, List.cons_append, List.head_cons]
  rw [hactives, List.map_append] at hnodup
  have hdisjoint := List.disjoint_of_nodup_append hnodup
  have hnot : x.2 ∉ (first :: rest).map Prod.snd := fun hmem =>
    hdisjoint hmem (List.mem_map_of_mem hx)
  refine ⟨fun heq => hnot ?_, hnot⟩
  rw [heq, hbegin]
  exact List.mem_map_of_mem List.mem_cons_self

variable (procs) in
/-- The processors above the level get nothing, unless the loop comes to the first of them with some tasks left. -/
theorem placed_high_iff (hnodup : (actives.toList.map Prod.snd).Nodup)
    (hactives : actives.toList = low ++ high)
    (hfilled : Filled tasks.length (loadsOf low) (loadsOf high))
    (ha : avg.toNat = level tasks.length (loadsOf low)) :
    (∀ x ∈ high, (placed actives avg (low ++ high.take 1) tasks procs x.2).newQue =
        (procs x.2).newQue) ↔
      high = [] ∨ level tasks.length (loadsOf low) ∈ loadsOf low ∨
        low.length ∣ tasks.length + (loadsOf low).sum := by
  have hlow : low ≠ [] := fun hnil => hfilled.nonempty (congrArg loadsOf hnil)
  have hbegin := fun x hx => begin_ne (x := x) hactives hlow hnodup hx
  by_cases hmem : level tasks.length (loadsOf low) ∈ loadsOf low
  · -- the loop ends before it comes to them
    refine iff_of_true (fun x hx => ?_) (.inr (.inl hmem))
    rw [placed, giveRest_of_ne (hbegin x hx).1, giveLower_stops low _ _ _ (ha ▸ hmem) _ (hbegin x hx).2]
  · have hdeficit := deficit_level hfilled.le_level
    have hbelow : ∀ load ∈ loadsOf low, load < avg.toNat := fun load hload =>
      ha.symm ▸ Nat.lt_of_le_of_ne (hfilled.le_level load hload) fun heq => hmem (heq ▸ hload)
    rw [← ha, length_loadsOf] at hdeficit
    obtain ⟨procs', hloop, hframe⟩ := giveLower_below low (high.take 1) tasks procs hbelow (by omega)
    have hrest : (tasks.drop (deficit avg.toNat (loadsOf low))).length =
        (tasks.length + (loadsOf low).sum) % low.length := by
      rw [List.length_drop]
      omega
    generalize tasks.drop (deficit avg.toNat (loadsOf low)) = left at hloop hrest
    rw [placed, hloop]
    cases high with
    | nil => exact iff_of_true nofun (.inl rfl)
    | cons x high =>
      obtain ⟨load, i⟩ := x
      rw [List.take_succ_cons, List.take_zero]
      by_cases hdvd : low.length ∣ tasks.length + (loadsOf low).sum
      · -- no task is left for them
        refine iff_of_true (fun y hy => ?_) (.inr (.inr hdvd))
        obtain rfl : left = [] :=
          List.eq_nil_of_length_eq_zero (hrest.trans (Nat.mod_eq_zero_of_dvd hdvd))
        rw [giveLower_empty _ List.take_nil, giveRest_of_ne (hbegin y hy).1]
        exact congrArg Processor.newQue (hframe _ (hbegin y hy).2)
      · refine iff_of_false (fun hall => ?_) (not_or.mpr ⟨List.cons_ne_nil _ _, not_or.mpr ⟨hmem, hdvd⟩⟩)
        obtain ⟨hfirst, hnot⟩ := hbegin (load, i) List.mem_cons_self
        have habove : avg.toNat < load.val.toNat := ha.symm ▸ hfilled.level_lt _ List.mem_cons_self
        have hwrap : (avg - load.val).toNat ≠ 0 := by
          have hlt := load.val.toNat_lt
          rw [UInt64.toNat_sub]
          omega
        have hleft : 0 < left.length := by
          rw [hrest]
          exact Nat.pos_of_ne_zero fun hzero => hdvd (Nat.dvd_of_mod_eq_zero hzero)
        have hnow : left.take (avg - load.val).toNat ≠ [] := by
          refine List.ne_nil_of_length_pos ?_
          rw [List.length_take]
          omega
        have hsame := hall (load, i) List.mem_cons_self
        rw [giveLower_nonempty _ hnow, giveRest_of_ne hfirst, giveLower] at hsame
        change (update procs' i _ i).newQue = (procs i).newQue at hsame
        rw [Function.update_self, newQue_addTask, hframe i hnot, List.append_right_eq_self] at hsame
        exact hnow hsame

/-- The tasks in the queues of the active processors. -/
def activeTasks (actives : ActiveMap n) (procs : Fin n → Processor) : Multiset TaskId :=
  ∑ i ∈ (actives.toList.map Prod.snd).toFinset, (procs i).runnable

/-- Every stolen task is put into a queue of an active processor. -/
theorem activeTasks_placed (hactives : actives.toList = low ++ high) :
    activeTasks actives (placed actives avg (low ++ high.take 1) tasks procs) =
      activeTasks actives procs + tasks := by
  have htotal : total (placed actives avg (low ++ high.take 1) tasks procs) = tasks + total procs := by
    rw [placed, inAll_giveRest]
    exact inAll_giveLower avg _ tasks procs
  have hother : ∀ i ∈ ((actives.toList.map Prod.snd).toFinset)ᶜ,
      (placed actives avg (low ++ high.take 1) tasks procs i).runnable = (procs i).runnable := by
    intro i hi
    rw [Finset.mem_compl, List.mem_toFinset] at hi
    have hlower : i ∉ (low ++ high.take 1).map Prod.snd := by
      intro hmem
      refine hi (List.map_subset _ ?_ hmem)
      rw [hactives]
      exact List.append_subset.mpr ⟨List.subset_append_left _ _,
        List.Subset.trans (List.take_subset 1 high) (List.subset_append_right _ _)⟩
    have hbegin : i ≠ actives.begin.2 := by
      rintro rfl
      exact hi (List.mem_map_of_mem (List.head_mem _))
    rw [placed, giveRest_of_ne hbegin, giveLower_frame avg _ _ _ i hlower]
  unfold total at htotal
  rw [← Finset.sum_add_sum_compl (actives.toList.map Prod.snd).toFinset,
    ← Finset.sum_add_sum_compl (actives.toList.map Prod.snd).toFinset (fun i => (procs i).runnable),
    Finset.sum_congr rfl hother, ← add_assoc] at htotal
  exact (add_right_cancel htotal).trans (add_comm _ _)

end

/--
The average is found without a division by zero, every stolen task is put into a queue of an active
processor, and a processor that is given some has no load above the average, so that the difference of the two does not
wrap.
-/
def PlacesTasks (procs : Fin n → Processor) (blockings : BlockMap n) (actives : ActiveMap n) : Prop :=
  let (stolen, procs₁) := stealBlocked blockings.toList [] procs
  ∃ avg lower procs', lowerActive actives.toList (UInt64.ofNat stolen.length) 0 0 = some (avg, lower) ∧
    balanceBlock procs blockings actives = some procs' ∧
    activeTasks actives procs' = activeTasks actives procs₁ + stolen ∧
    ∀ x ∈ actives.toList, (procs' x.2).newQue ≠ (procs₁ x.2).newQue → x.1.val ≤ avg

/-- The tasks that `balanceBlock` steals. -/
def stolenTasks (procs : Fin n → Processor) (blockings : BlockMap n) : List TaskId :=
  (stealBlocked blockings.toList [] procs).1

theorem balanceBlock_eq {procs : Fin n → Processor} {blockings : BlockMap n} {actives : ActiveMap n}
    (hstolen : stolenTasks procs blockings ≠ []) {avg : UInt64} {lower : List (Load × Fin n)}
    (hlower : lowerActive actives.toList (UInt64.ofNat (stolenTasks procs blockings).length) 0 0 =
      some (avg, lower)) :
    balanceBlock procs blockings actives = some (placed actives avg lower (stolenTasks procs blockings)
      (stealBlocked blockings.toList [] procs).2) := by
  have hblockings : blockings.toList ≠ [] := by
    intro hnil
    rw [stolenTasks, hnil] at hstolen
    exact hstolen rfl
  unfold stolenTasks at hstolen hlower ⊢
  unfold balanceBlock placed
  rw [if_neg (mt List.isEmpty_iff.mp hblockings)]
  dsimp only
  rw [if_neg (mt List.isEmpty_iff.mp hstolen), hlower]

/-- There is only one way to fill up the lowest loads. -/
theorem filled_unique {amount : Nat} {low high low' high' : List (Load × Fin n)}
    (heq : low ++ high = low' ++ high') (h : Filled amount (loadsOf low) (loadsOf high))
    (h' : Filled amount (loadsOf low') (loadsOf high')) : low = low' ∧ high = high' := by
  have hnil {mid : List (Load × Fin n)} (hmid : loadsOf mid = []) : mid = [] := List.map_eq_nil_iff.mp hmid
  rcases List.append_eq_append_iff.mp heq with ⟨mid, rfl, rfl⟩ | ⟨mid, rfl, rfl⟩
  · rw [loadsOf_append] at h'
    obtain rfl := hnil (h.not_longer h' (loadsOf_append _ _))
    exact ⟨(List.append_nil _).symm, rfl⟩
  · rw [loadsOf_append] at h
    obtain rfl := hnil (h'.not_longer h (loadsOf_append _ _))
    exact ⟨List.append_nil _, rfl⟩

/--
**`balanceBlock` places the stolen tasks rightly exactly if** no processor is above the level to which they
fill up the lowest loads, or a load is at this level, or nothing remains when they are filled up.
-/
theorem placesTasks_iff (procs : Fin n → Processor) (blockings : BlockMap n) (actives : ActiveMap n)
    (hnodup : (actives.toList.map Prod.snd).Nodup) (hstolen : stolenTasks procs blockings ≠ [])
    (hfits : (stolenTasks procs blockings).length + (loadsOf actives.toList).sum < 2 ^ 64)
    {low high : List (Load × Fin n)} (hactives : actives.toList = low ++ high)
    (hfilled : Filled (stolenTasks procs blockings).length (loadsOf low) (loadsOf high)) :
    PlacesTasks procs blockings actives ↔
      high = [] ∨ level (stolenTasks procs blockings).length (loadsOf low) ∈ loadsOf low ∨
        low.length ∣ (stolenTasks procs blockings).length + (loadsOf low).sum := by
  obtain ⟨low', high', avg, hactives', hlower, hfilled', havg⟩ := exists_filled actives hfits
  obtain ⟨rfl, rfl⟩ := filled_unique (hactives'.symm.trans hactives) hfilled' hfilled
  have hblock := balanceBlock_eq hstolen hlower
  refine Iff.trans ?_ (placed_high_iff (stealBlocked blockings.toList [] procs).2 hnodup hactives
    hfilled havg)
  constructor
  · rintro ⟨avg', lower, procs', hlower', hblock', -, hgiven⟩ x hx
    have heq : (avg', lower) = (avg, low' ++ high'.take 1) :=
      Option.some.inj (hlower'.symm.trans hlower)
    obtain ⟨rfl, rfl⟩ := Prod.mk.inj heq
    obtain rfl := Option.some.inj (hblock'.symm.trans hblock)
    by_contra hne
    have hle := UInt64.le_iff_toNat_le.mp
      (hgiven x (hactives ▸ List.mem_append_right _ hx) hne)
    have hlt := hfilled.level_lt _ (List.mem_map_of_mem hx)
    omega
  · intro hsame
    refine ⟨avg, _, _, hlower, hblock, activeTasks_placed hactives, fun x hx hne => ?_⟩
    rw [hactives] at hx
    rcases List.mem_append.mp hx with hx | hx
    · rw [UInt64.le_iff_toNat_le, havg]
      exact hfilled.le_level _ (List.mem_map_of_mem hx)
    · exact absurd (hsame x hx) hne

/-- Two stolen tasks go to the processor with one task, and fill it up to the load of the other one. -/
def twoStolen : Fin 3 → Processor := ![{ newQue := [1, 2] }, { newQue := [4] }, { runQue := [5, 6, 7] }]

theorem placesTasks_iff_twoStolen :
    PlacesTasks twoStolen ⟨[(0, ⟨2, by decide⟩)], by decide⟩
        ⟨[(⟨1, by decide⟩, 1), (⟨3, by decide⟩, 2)],
          List.pairwise_pair.mpr (show (1 : UInt64) ≤ 3 by decide), by decide⟩ ↔
      ([] : List (Load × Fin 3)) = [] ∨ level 2 [1, 3] ∈ [1, 3] ∨ 2 ∣ 2 + [1, 3].sum :=
  placesTasks_iff twoStolen ⟨[(0, ⟨2, by decide⟩)], by decide⟩
    ⟨[(⟨1, by decide⟩, 1), (⟨3, by decide⟩, 2)],
      List.pairwise_pair.mpr (show (1 : UInt64) ≤ 3 by decide), by decide⟩
    (by decide) (by decide) (by decide) (List.append_nil _).symm ⟨by decide, by decide, nofun⟩

/--
Three stolen tasks go to two processors without tasks, one to each of them. The third one goes to the processor with
five tasks.
-/
def threeStolen : Fin 4 → Processor := ![{ newQue := [1, 2, 3] }, {}, {}, { runQue := [5, 6, 7, 8, 9] }]

def threeActives : ActiveMap 4 where
  toList := [(⟨0, by decide⟩, 1), (⟨0, by decide⟩, 2), (⟨5, by decide⟩, 3)]
  sorted := .cons (List.forall_mem_cons.mpr ⟨show (0 : UInt64) ≤ 0 by decide,
      List.forall_mem_singleton.mpr (show (0 : UInt64) ≤ 5 by decide)⟩)
    (List.pairwise_pair.mpr (show (0 : UInt64) ≤ 5 by decide))
  nonempty := List.cons_ne_nil _ _

theorem not_placesTasks : ¬ ∀ (n : Nat) (procs : Fin n → Processor) (blockings : BlockMap n)
    (actives : ActiveMap n), (actives.toList.map Prod.snd).Nodup →
      stolenTasks procs blockings ≠ [] →
      (stolenTasks procs blockings).length + (loadsOf actives.toList).sum < 2 ^ 64 →
        PlacesTasks procs blockings actives := by
  intro h
  obtain ⟨avg, lower, procs', hlower, hblock, -, hgiven⟩ := h 4 threeStolen
    ⟨[(0, ⟨3, by decide⟩)], by decide⟩ threeActives (by decide) (by decide) (by decide)
  have havg : (lowerActive threeActives.toList (UInt64.ofNat 3) 0 0).map Prod.fst = some 1 := by
    decide +kernel
  have hqueue : (balanceBlock threeStolen ⟨[(0, ⟨3, by decide⟩)], by decide⟩ threeActives).map
      (fun procs => (procs 3).newQue) = some [3] := by decide +kernel
  rw [show lowerActive threeActives.toList (UInt64.ofNat 3) 0 0 = some (avg, lower) from hlower] at havg
  rw [hblock] at hqueue
  obtain rfl : avg = 1 := Option.some.inj havg
  have hnew : (procs' 3).newQue = [3] := Option.some.inj hqueue
  have hle := hgiven (⟨5, by decide⟩, 3) (by decide) (by rw [hnew]; decide)
  exact absurd hle (by decide)

end Nemo.Coroutine
