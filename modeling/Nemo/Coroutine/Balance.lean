import Mathlib.Algebra.BigOperators.Fin
import Mathlib.Data.Fin.VecNotation
import Nemo.Coroutine.Steps

/-!
# Load balancing

`Scheduler::balanceBlock` and `Scheduler::balanceActive` of `src/coroutine/scheduler.cc`, on the processors
`Fin n`. A size is a `UInt64`, whose differences wrap, and a division by zero is `none`.

What is proved is that no task is lost or made: `total` is the multiset of the runnable tasks, and the
deques that the two functions work on are what is in hand between two queues.
-/

namespace Nemo.Coroutine

open Function (update)
open ConcurrentLinkedDeque (popFrontBulk popBackBulk popFrontBulk_append popBackBulk_append)

/-! ## The balancer -/

/--
How many tasks there can be. A task in a queue is a node of a `std::list` with at least two
pointers, so that fewer than a quarter of all addresses are nodes.
-/
def maxTasks : Nat := 2 ^ 64 / 4

/-- What `runnableTaskCount` can return: the sizes of two lists, taken one after the other. -/
abbrev Load := { load : UInt64 // load.toNat ≤ 2 * maxTasks }

/-- `BlockMap`: indices of processors, with sizes that nobody reads. -/
structure BlockMap (n : Nat) where
  toList : List (Fin n × Load)
  sorted : toList.Pairwise (·.1 < ·.1)

/-- `ActiveMap`: the processors by their load. It is not empty when the balancer is called. -/
structure ActiveMap (n : Nat) where
  toList : List (Load × Fin n)
  sorted : toList.Pairwise (·.1 ≤ ·.1)
  nonempty : toList ≠ []

variable {n : Nat}

/-- The processor of `actives.begin()`. -/
def ActiveMap.begin (actives : ActiveMap n) : Load × Fin n := actives.toList.head actives.nonempty

/-- `steal` -/
def Processor.steal (P : Processor) (size : UInt64) : List TaskId × Processor :=
  let (result, newQue) := stolenNew size.toNat P.newQue
  let P := { P with newQue := newQue }
  if result.length < size.toNat then
    let (more, runQue) := popBackBulk (size.toNat - result.length) P.runQue
    (result ++ more, { P with runQue := runQue })
  else (result, P)

/-- One round of a loop that steals: `size` tasks of the processor `i`. -/
def stealFrom (tasks : List TaskId) (procs : Fin n → Processor) (i : Fin n) (size : UInt64) :
    List TaskId × (Fin n → Processor) :=
  let (stolen, P) := (procs i).steal size
  (tasks ++ stolen, update procs i P)

/-- `processor->addTask(std::move(in))` -/
def give (procs : Fin n → Processor) (i : Fin n) (tasks : List TaskId) : Fin n → Processor :=
  update procs i ((procs i).addTask tasks)

/-- The last section of both functions: what is left goes to the processor of the least load. -/
def giveRest (actives : ActiveMap n) (tasks : List TaskId) (procs : Fin n → Processor) :
    Fin n → Processor :=
  if tasks.isEmpty then procs else give procs actives.begin.2 tasks

/-! ### `balanceBlock` -/

/-- The first loop. -/
def stealBlocked : List (Fin n × Load) → List TaskId → (Fin n → Processor) →
    List TaskId × (Fin n → Processor)
  | [], tasks, procs => (tasks, procs)
  | (i, _) :: rest, tasks, procs =>
    let (tasks, procs) := stealFrom tasks procs i 0
    stealBlocked rest tasks procs

/--
The second loop: `avg`, and the part of `actives` before `lowerActive`. The processor at which the loop
breaks does not count in `avg`, but the next loop comes to it.
-/
def lowerActive : List (Load × Fin n) → UInt64 → Nat → UInt64 → Option (UInt64 × List (Load × Fin n))
  | [], _, _, avg => some (avg, [])
  | (load, i) :: rest, totalBlockTasks, lowerNum, _ =>
    let total := totalBlockTasks + load
    let avg := UInt64.ofNat (total.toNat / (lowerNum + 1))
    if load > avg then
      if lowerNum = 0 then none
      else some (UInt64.ofNat ((total - load).toNat / lowerNum), [(load, i)])
    else
      (lowerActive rest total (lowerNum + 1) avg).map fun (avg, lower) => (avg, (load, i) :: lower)

/-- The third loop. -/
def giveLower (avg : UInt64) : List (Load × Fin n) → List TaskId → (Fin n → Processor) →
    List TaskId × (Fin n → Processor)
  | [], tasks, procs => (tasks, procs)
  | (load, i) :: rest, tasks, procs =>
    let (now, later) := popFrontBulk (avg - load).toNat tasks
    if now.isEmpty then (later, procs) else giveLower avg rest later (give procs i now)

def balanceBlock (procs : Fin n → Processor) (blockings : BlockMap n) (actives : ActiveMap n) :
    Option (Fin n → Processor) :=
  if blockings.toList.isEmpty then some procs
  else
    let (blockingTasks, procs) := stealBlocked blockings.toList [] procs
    if blockingTasks.isEmpty then some procs
    else
      match lowerActive actives.toList (UInt64.ofNat blockingTasks.length) 0 0 with
      | none => none
      | some (avg, lower) =>
        let (blockingTasks, procs) := giveLower avg lower blockingTasks procs
        some (giveRest actives blockingTasks procs)

/-! ### `balanceActive` -/

/-- The first loop, on the map in reverse. -/
def stealUpper (avg : UInt64) : List (Load × Fin n) → List TaskId → (Fin n → Processor) →
    List TaskId × (Fin n → Processor)
  | [], tasks, procs => (tasks, procs)
  | (load, i) :: rest, tasks, procs =>
    if load ≤ avg then (tasks, procs)
    else
      let (tasks, procs) := stealFrom tasks procs i (load - avg)
      stealUpper avg rest tasks procs

/-- The second loop. -/
def giveBelow (avg : UInt64) : List (Load × Fin n) → List TaskId → (Fin n → Processor) →
    List TaskId × (Fin n → Processor)
  | [], tasks, procs => (tasks, procs)
  | (size, i) :: rest, tasks, procs =>
    if size ≥ avg then (tasks, procs)
    else
      let (now, later) := popFrontBulk (avg - size).toNat tasks
      giveBelow avg rest later (give procs i now)

/-- `threshold avg` is `static_cast<size_t>(avg * kLoadBalanceRate)`, a product of floats. -/
def balanceActive (threshold : UInt64 → UInt64) (procs : Fin n → Processor) (actives : ActiveMap n)
    (activeTaskCount : UInt64) : Fin n → Processor :=
  let avg := UInt64.ofNat (activeTaskCount.toNat / actives.toList.length)
  if actives.begin.1 > threshold avg then procs
  else
    let (tasks, procs) := stealUpper avg actives.toList.reverse [] procs
    if tasks.isEmpty then procs
    else
      let (tasks, procs) := giveBelow avg actives.toList tasks procs
      giveRest actives tasks procs

/-- The last two lines of a round of `runBalance`. -/
def balance (threshold : UInt64 → UInt64) (procs : Fin n → Processor) (blockings : BlockMap n)
    (actives : ActiveMap n) (activeTaskCount : UInt64) : Option (Fin n → Processor) :=
  (balanceBlock procs blockings actives).map fun procs =>
    balanceActive threshold procs actives activeTaskCount

/-! ## What is in the queues -/

/-- The tasks in both queues of a processor. -/
def Processor.runnable (P : Processor) : Multiset TaskId := P.newQue + P.runQue

/-- The tasks in the queues of all processors. -/
def total (procs : Fin n → Processor) : Multiset TaskId := ∑ i, (procs i).runnable

/-- The tasks in hand and those in the queues. -/
def inAll (x : List TaskId × (Fin n → Processor)) : Multiset TaskId := x.1 + total x.2

theorem total_update (procs : Fin n → Processor) (i : Fin n) (P : Processor) :
    total (update procs i P) + (procs i).runnable = total procs + P.runnable := by
  have hupdate : ∀ j, (update procs i P j).runnable =
      update (fun j => (procs j).runnable) i P.runnable j := fun j =>
    Function.apply_update (fun _ => Processor.runnable) procs i P j
  unfold total
  rw [Finset.sum_congr rfl fun j _ => hupdate j, Finset.sum_update_of_mem (Finset.mem_univ i),
    Finset.sdiff_singleton_eq_erase, ← Finset.add_sum_erase _ _ (Finset.mem_univ i)]
  rw [add_comm P.runnable, add_assoc, add_comm P.runnable, ← add_assoc,
    add_comm (Finset.sum _ _) (procs i).runnable]

theorem runnable_addTask (P : Processor) (tasks : List TaskId) :
    (P.addTask tasks).runnable = P.runnable + tasks := by
  unfold Processor.runnable Processor.addTask Processor.notifiNewQueCondition
  split <;>
  · show (↑(P.newQue ++ tasks) : Multiset TaskId) + P.runQue = _
    rw [← Multiset.coe_add, add_assoc, add_comm (tasks : Multiset TaskId), add_assoc]

/-- A stolen task is in no queue any more, and no other task has left its queue. -/
theorem runnable_steal (P : Processor) (size : UInt64) :
    (P.steal size).1 + (P.steal size).2.runnable = P.runnable := by
  have hnew : ((stolenNew size.toNat P.newQue).1 : Multiset TaskId) +
      (stolenNew size.toNat P.newQue).2 = P.newQue := by
    rw [Multiset.coe_add, Multiset.coe_eq_coe]
    exact stolenNew_perm _ _
  unfold Processor.steal Processor.runnable
  dsimp only
  split
  · generalize hk : size.toNat - (stolenNew size.toNat P.newQue).1.length = k
    have hrun : ((popBackBulk k P.runQue).2 : Multiset TaskId) + (popBackBulk k P.runQue).1 =
        P.runQue := by
      rw [Multiset.coe_add, popBackBulk_append]
    dsimp only
    rw [← Multiset.coe_add, ← hnew, ← hrun]
    ac_rfl
  · dsimp only
    rw [← hnew]
    ac_rfl

theorem total_give (procs : Fin n → Processor) (i : Fin n) (tasks : List TaskId) :
    total (give procs i tasks) = total procs + tasks := by
  have h := total_update procs i ((procs i).addTask tasks)
  rw [runnable_addTask, add_comm (procs i).runnable, ← add_assoc] at h
  exact add_right_cancel h

theorem inAll_stealFrom (tasks : List TaskId) (procs : Fin n → Processor) (i : Fin n)
    (size : UInt64) : inAll (stealFrom tasks procs i size) = inAll (tasks, procs) := by
  have h := total_update procs i ((procs i).steal size).2
  rw [← runnable_steal (procs i) size, ← add_assoc] at h
  have htotal := add_right_cancel h
  show (↑(tasks ++ ((procs i).steal size).1) : Multiset TaskId) +
    total (update procs i ((procs i).steal size).2) = tasks + total procs
  rw [← htotal, ← Multiset.coe_add]
  ac_rfl

/-- Some tasks in hand are given to a processor. -/
theorem inAll_give (tasks : List TaskId) (procs : Fin n → Processor) (i : Fin n) (size : Nat) :
    inAll ((popFrontBulk size tasks).2, give procs i (popFrontBulk size tasks).1) =
      inAll (tasks, procs) := by
  show ((popFrontBulk size tasks).2 : Multiset TaskId) + total (give procs i _) =
    tasks + total procs
  rw [total_give]
  conv_rhs => rw [← popFrontBulk_append size tasks, ← Multiset.coe_add]
  ac_rfl

theorem inAll_giveRest (actives : ActiveMap n) (tasks : List TaskId) (procs : Fin n → Processor) :
    total (giveRest actives tasks procs) = inAll (tasks, procs) := by
  unfold giveRest inAll
  split
  · next h => rw [List.isEmpty_iff.mp h, Multiset.coe_nil, zero_add]
  · rw [total_give, add_comm]

/-! ## The loops -/

theorem inAll_stealBlocked : ∀ (blockings : List (Fin n × Load)) (tasks : List TaskId)
    (procs : Fin n → Processor), inAll (stealBlocked blockings tasks procs) = inAll (tasks, procs)
  | [], _, _ => rfl
  | (i, _) :: rest, tasks, procs => by
    rw [stealBlocked, inAll_stealBlocked rest, inAll_stealFrom]

theorem inAll_giveLower (avg : UInt64) : ∀ (lower : List (Load × Fin n)) (tasks : List TaskId)
    (procs : Fin n → Processor), inAll (giveLower avg lower tasks procs) = inAll (tasks, procs)
  | [], _, _ => rfl
  | (load, i) :: rest, tasks, procs => by
    rw [giveLower]
    dsimp only
    split
    · next h =>
      have hsplit := popFrontBulk_append (avg - load).toNat tasks
      rw [List.isEmpty_iff.mp h, List.nil_append] at hsplit
      rw [hsplit]
    · rw [inAll_giveLower avg rest, inAll_give]

theorem inAll_stealUpper (avg : UInt64) : ∀ (upper : List (Load × Fin n)) (tasks : List TaskId)
    (procs : Fin n → Processor), inAll (stealUpper avg upper tasks procs) = inAll (tasks, procs)
  | [], _, _ => rfl
  | (load, i) :: rest, tasks, procs => by
    rw [stealUpper]
    split
    · rfl
    · rw [inAll_stealUpper avg rest, inAll_stealFrom]

theorem inAll_giveBelow (avg : UInt64) : ∀ (below : List (Load × Fin n)) (tasks : List TaskId)
    (procs : Fin n → Processor), inAll (giveBelow avg below tasks procs) = inAll (tasks, procs)
  | [], _, _ => rfl
  | (size, i) :: rest, tasks, procs => by
    rw [giveBelow]
    split
    · rfl
    · rw [inAll_giveBelow avg rest, inAll_give]

/-! ## The average -/

/-- Behind the first processor, there is always one that counts. -/
theorem lowerActive_isSome : ∀ (actives : List (Load × Fin n)) (totalBlockTasks : UInt64)
    {lowerNum : Nat} (avg : UInt64), lowerNum ≠ 0 →
    (lowerActive actives totalBlockTasks lowerNum avg).isSome = true
  | [], _, _, _, _ => rfl
  | (load, i) :: rest, totalBlockTasks, lowerNum, avg, h => by
    rw [lowerActive]
    dsimp only
    rw [if_neg h]
    split
    · rfl
    · rw [Option.isSome_map]
      exact lowerActive_isSome rest _ _ (Nat.succ_ne_zero _)

/-- The first processor counts, because the average is over its own tasks and the stolen ones. -/
theorem exists_lowerActive (actives : ActiveMap n) {tasks : List TaskId}
    (h : tasks.length ≤ maxTasks) :
    ∃ avg lower, lowerActive actives.toList (UInt64.ofNat tasks.length) 0 0 = some (avg, lower) := by
  have hsome : (lowerActive actives.toList (UInt64.ofNat tasks.length) 0 0).isSome = true := by
    obtain ⟨⟨load, i⟩, rest, hcons⟩ := List.exists_cons_of_ne_nil actives.nonempty
    rw [hcons, lowerActive]
    dsimp only
    rw [if_neg, Option.isSome_map]
    · exact lowerActive_isSome rest _ _ one_ne_zero
    · have hload := load.2
      unfold maxTasks at h hload
      rw [gt_iff_lt, UInt64.lt_iff_toNat_lt, Nat.zero_add, Nat.div_one, UInt64.ofNat_toNat,
        UInt64.toNat_add, UInt64.toNat_ofNat']
      omega
  obtain ⟨⟨avg, lower⟩, heq⟩ := Option.isSome_iff_exists.mp hsome
  exact ⟨avg, lower, heq⟩

/-! ## Conservation -/

theorem total_balanceActive (threshold : UInt64 → UInt64) (procs : Fin n → Processor)
    (actives : ActiveMap n) (activeTaskCount : UInt64) :
    total (balanceActive threshold procs actives activeTaskCount) = total procs := by
  unfold balanceActive
  dsimp only
  generalize UInt64.ofNat (activeTaskCount.toNat / actives.toList.length) = avg
  have hsteal : inAll (stealUpper avg actives.toList.reverse [] procs) = total procs :=
    (inAll_stealUpper avg _ [] procs).trans (zero_add _)
  split
  · rfl
  · split
    · next h =>
      rw [inAll, List.isEmpty_iff.mp h] at hsteal
      rw [← hsteal]
      exact (zero_add _).symm
    · rw [inAll_giveRest, inAll_giveBelow, hsteal]

theorem exists_balanceBlock (procs : Fin n → Processor) (blockings : BlockMap n)
    (actives : ActiveMap n) (h : (total procs).card ≤ maxTasks) :
    ∃ procs', balanceBlock procs blockings actives = some procs' ∧ total procs' = total procs := by
  unfold balanceBlock
  dsimp only
  have hsteal : inAll (stealBlocked blockings.toList [] procs) = total procs :=
    (inAll_stealBlocked _ [] procs).trans (zero_add _)
  split
  · exact ⟨procs, rfl, rfl⟩
  · split
    · next he =>
      refine ⟨_, rfl, ?_⟩
      rw [inAll, List.isEmpty_iff.mp he] at hsteal
      rw [← hsteal]
      exact (zero_add _).symm
    · have hlen : (stealBlocked blockings.toList [] procs).1.length ≤ maxTasks := by
        refine Nat.le_trans ?_ h
        rw [← hsteal, inAll, Multiset.card_add, Multiset.coe_card]
        exact Nat.le_add_right _ _
      obtain ⟨avg, lower, heq⟩ := exists_lowerActive actives hlen
      rw [heq]
      refine ⟨_, rfl, ?_⟩
      rw [inAll_giveRest, inAll_giveLower, hsteal]

/--
**Load balancing conserves tasks.** Both functions come to their end, whatever the recorded loads are, and every
task is in as many queues as before.
-/
theorem total_balance (threshold : UInt64 → UInt64) (procs : Fin n → Processor)
    (blockings : BlockMap n) (actives : ActiveMap n) (activeTaskCount : UInt64)
    (h : (total procs).card ≤ maxTasks) :
    ∃ procs', balance threshold procs blockings actives activeTaskCount = some procs' ∧
      total procs' = total procs := by
  obtain ⟨procs₁, hblock, htotal⟩ := exists_balanceBlock procs blockings actives h
  unfold balance
  rw [hblock]
  exact ⟨_, rfl, (total_balanceActive ..).trans htotal⟩

/-- Processor 0 is blocked with two tasks; the load of processor 2 is stale. -/
def oneBlocked : Fin 3 → Processor :=
  ![{ newQue := [1, 2], runQue := [3] }, { newQue := [4] }, { runQue := [5] }]

theorem total_balance_oneBlocked :
    ∃ procs', balance (fun avg => avg / 100) oneBlocked ⟨[(0, ⟨3, by decide⟩)], by decide⟩
        ⟨[(⟨1, by decide⟩, 1), (⟨7, by decide⟩, 2)],
          List.pairwise_pair.mpr (show (1 : UInt64) ≤ 7 by decide), by decide⟩ 8 = some procs' ∧
      total procs' = total oneBlocked :=
  total_balance _ _ _ _ _ (by decide +kernel)

end Nemo.Coroutine
