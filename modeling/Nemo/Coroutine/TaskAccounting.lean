import Mathlib.Data.Finset.Card
import Mathlib.Data.Finset.Option
import Nemo.Coroutine.TaskPlaces

/-!
# `taskCount_`

The counter of `Scheduler::SchedulerTaskOpt` beside the state of the processors. `onAdd` is called once by
every `addTask` of a processor, also by the one with which the balancer gives stolen tasks back, and
`onErase` when `process()` is done with a task that has ended.

`accepted`, `finished` and `opened` record what has happened: the tasks that a processor was given, those
for which `onErase` was called, and the calls of the iterator-range template that have called `onAdd` and
have not added a task yet.
-/

namespace Nemo.Coroutine

open Infra

structure Accounts where
  state : State := {}
  taskCount : UInt64 := 0
  accepted : Finset TaskId := ∅
  finished : Finset TaskId := ∅
  opened : Finset Nat := ∅

/-- The step calls `onAdd`. -/
def Act.adds : Act → Bool
  | .addTask _ _ | .rangeBegin _ _ | .give _ _ => true
  | _ => false

/-- The tasks that are new in the step. -/
def Act.tasks : Act → List TaskId
  | .addTask _ o => o.tasks
  | .rangePush _ t => [t]
  | _ => []

/-- The task with which the step calls `onErase`. -/
def State.erases (s : State) : Act → Option TaskId
  | .process p => if (s.proc p).pc = .erase then (s.proc p).runningTask else none
  | _ => none

def Accounts.openedBy (s : Accounts) : Act → Finset Nat
  | .rangeBegin k _ => insert k s.opened
  | .rangePush k _ | .rangeEnd k => s.opened.erase k
  | _ => s.opened

namespace Accounts

def step (s : Accounts) (a : Act) : Option Accounts :=
  (Coroutine.step s.state a).map fun state =>
    { state := state
      taskCount := s.taskCount + (if a.adds then 1 else 0) -
        (if (s.state.erases a).isSome then 1 else 0)
      accepted := s.accepted ∪ a.tasks.toFinset
      finished := s.finished ∪ (s.state.erases a).toFinset
      opened := s.openedBy a }

def isEmpty (s : Accounts) : Bool := 0 == s.taskCount

/-- The tasks that have been accepted and not finished. -/
def unfinished (s : Accounts) : Finset TaskId := s.accepted \ s.finished

/-- What the counter is for. -/
structure Exact (s : Accounts) : Prop where
  finished : s.finished ⊆ s.accepted
  taskCount : s.taskCount = UInt64.ofNat (s.accepted.card - s.finished.card)
  isEmpty : s.unfinished.card < 2 ^ 64 → (s.isEmpty = true ↔ s.unfinished = ∅)

/-- Every call of `addTask` brings one task, and the balancer gives none back. -/
def CountsOne (s : Accounts) : Act → Prop
  | .addTask _ o => o.tasks.length = 1
  | .rangePush k _ => k ∈ s.opened
  | .rangeEnd k => k ∉ s.opened
  | .give _ _ => False
  | _ => True

instance (s : Accounts) (a : Act) : Decidable (CountsOne s a) :=
  match a with
  | .addTask _ o => inferInstanceAs (Decidable (o.tasks.length = 1))
  | .rangePush k _ => inferInstanceAs (Decidable (k ∈ s.opened))
  | .rangeEnd k => inferInstanceAs (Decidable (k ∉ s.opened))
  | .give _ _ => .isFalse id
  | .process _ | .spurious _ | .suspend _ | .yield _ | .finish _ _ | .wakeLock _ _ | .wakeErase _
  | .wakeNotify _ | .wakeRelease _ | .rangeBegin _ _ | .stealNew _ _ | .stealRun => .isTrue trivial

end Accounts

/-- The scheduler with its counter. -/
def accounting : Lts Accounts Act where
  init := {}
  step := Accounts.step

/-! ## What a step does to `added` and `range` -/

theorem releaseOwner_frame (s : State) (e : SuspendId) (o : Owner) :
    (s.releaseOwner e o).added = s.added ∧ (s.releaseOwner e o).range = s.range := by
  unfold State.releaseOwner
  split
  · exact ⟨rfl, rfl⟩
  · split <;> exact ⟨rfl, rfl⟩

theorem suspendBySelf_frame (s : State) (p : ProcId) (t : TaskId) :
    (s.suspendBySelf p t).added = s.added ∧ (s.suspendBySelf p t).range = s.range :=
  releaseOwner_frame _ _ _

theorem eraseWaitSet_frame (s : State) (p : ProcId) (t : TaskId) :
    (s.eraseWaitSet p t).added = s.added ∧ (s.eraseWaitSet p t).range = s.range := by
  unfold State.eraseWaitSet
  split
  · exact ⟨rfl, rfl⟩
  · exact releaseOwner_frame _ _ _

/-- A task is added by the step that accepts it. -/
theorem added_step {s s' : State} {a : Act} (hs : step s a = some s') (t : TaskId) :
    s'.added t = true ↔ s.added t = true ∨ t ∈ a.tasks := by
  cases steps_of_step hs with
  | process hp =>
    have hadd : s'.added = s.added := by cases hp <;> rfl
    rw [hadd]
    simp [Act.tasks]
  | suspend => simp [Act.tasks, suspendBySelf_frame]
  | erase => simp [Act.tasks, eraseWaitSet_frame]
  | release => simp [Act.tasks, releaseOwner_frame]
  | addTask => simp [Act.tasks]
  | rangePush => simp [Act.tasks]
  | _ => simp [Act.tasks]

/-- A range call is in progress from its beginning to its end. -/
theorem range_step {s s' : State} {a : Act} (hs : step s a = some s') (k : Nat)
    (hend : a ≠ .rangeEnd k) (hk : s.range k ≠ none) : s'.range k ≠ none := by
  cases steps_of_step hs with
  | process hp =>
    have hrange : s'.range = s.range := by cases hp <;> rfl
    rwa [hrange]
  | suspend => rwa [(suspendBySelf_frame ..).2]
  | @erase c e b p =>
    show (s.eraseWaitSet p b.task).range k ≠ none
    rwa [(eraseWaitSet_frame ..).2]
  | release => rwa [(releaseOwner_frame ..).2]
  | @rangeBegin j p hr =>
    have hne : k ≠ j := fun e => hk (e ▸ hr)
    show Function.update s.range j _ k ≠ none
    rwa [Function.update_of_ne hne]
  | @rangeEnd j p =>
    have hne : k ≠ j := fun e => hend (e ▸ rfl)
    show Function.update s.range j _ k ≠ none
    rwa [Function.update_of_ne hne]
  | _ => exact hk

/-! ## The end of a task -/

/-- What runs outside of the window between `Suspend` and `Yield` is nowhere else. -/
theorem Owned.eq_of_has {s : State} (h : Owned s) {p : ProcId} {t : TaskId}
    (ht : (s.proc p).runningTask = some t) (hns : ¬ (s.proc p).Suspended s.task t) :
    (∀ q, q ≠ p → ¬ (s.proc q).Has t) ∧ t ∉ (s.proc p).newQue ∧ t ∉ (s.proc p).runQue ∧
      t ∉ (s.proc p).inHand ∧ (s.proc p).nextTask ≠ some t ∧
      (∀ e b, s.suspension e = some b → b.owners ≠ ∅ → b.task ≠ t) ∧ t ∉ s.transfer := by
  have hnot : ∀ i, i ≠ .proc p .runningTask → t ∉ s.held i := fun i hi =>
    h.not_mem_of_running ht hns hi
  have hslot : ∀ q i, i ≠ .runningTask → t ∉ (s.proc q).held s.task i := fun q i hi =>
    hnot (.proc q i) fun e => hi (by cases e; rfl)
  refine ⟨fun q hq hhas => ?_, hslot p .newQue (by decide), hslot p .runQue (by decide),
    hslot p .inHand (by decide), fun hn => ?_, fun e b hb ho hbt => ?_, hnot .transfer (by simp)⟩
  · rcases hhas with hhas | hhas | hhas | hhas | hhas
    · exact hslot q .newQue (by decide) hhas
    · exact hslot q .runQue (by decide) hhas
    · exact hslot q .inHand (by decide) hhas
    · exact hq (h.runningTask_unique hhas ht)
    · exact hslot q .nextTask (by decide) (Option.mem_toList.mpr hhas)
  · exact hslot p .nextTask (by decide) (Option.mem_toList.mpr hn)
  · refine hnot (.suspension e) (by simp) ?_
    rw [held_suspension hb ho, hbt]
    exact List.mem_singleton.mpr rfl

/-- A task is nowhere when `process()` is done with it. -/
theorem not_has_erase {s s' : State} (h : Owned s) {p : ProcId} {t : TaskId}
    (hs : s.process p = some s') (hpc : (s.proc p).pc = .erase)
    (ht : (s.proc p).runningTask = some t) : ¬ s'.Has t := by
  have hns := not_suspended_of_pc (P := s.proc p) s.task (by rw [hpc]; decide) (by rw [hpc]; decide) t
  obtain ⟨hothers, hnew, hrun, hhand, hnext, hsusp, htransfer⟩ := h.eq_of_has ht hns
  have hmod : ∀ f : Processor → Processor, ¬ (f (s.proc p)).Has t → ¬ (s.modifyProc p f).Has t := by
    rintro f hf (⟨q, hq⟩ | ⟨e, b, hb, ho, hbt⟩ | htr)
    · rw [modifyProc_proc] at hq
      split at hq
      · exact hf hq
      · next hne => exact hothers q hne hq
    · exact hsusp e b hb ho hbt
    · exact htransfer htr
  cases processSteps_of_process hs with
  | popFront hpc' => rcases hpc' with e | e | e <;> cases hpc.symm.trans e
  | acquireMiss hpc' | popNew hpc' | pushNew hpc' | retryMiss hpc' | skipWait hpc' | wait hpc'
  | wakeUp hpc' | swapIn hpc' | caseRunning hpc' | caseBlock hpc' | caseDone hpc' | requeue hpc'
  | takeNextMiss hpc' => cases hpc.symm.trans hpc'
  | eraseHit _ hq =>
    refine hmod _ ?_
    rintro (h | h | h | h | h)
    · exact hnew (hq ▸ List.mem_cons_of_mem _ h)
    · exact hrun h
    · exact hhand h
    · cases h
      exact hnew (hq ▸ List.mem_cons_self)
    · exact hnext h
  | eraseMiss =>
    refine hmod _ ?_
    rintro (h | h | h | h | h)
    · exact hnew h
    · exact hrun h
    · exact hhand h
    · exact hnext h
    · cases h

/-! ## The invariant -/

namespace Accounts

/-- The counter counts the unfinished tasks, and the range calls that have not added theirs. -/
structure Counted (s : Accounts) : Prop where
  finished : s.finished ⊆ s.accepted
  added : ∀ t, s.state.added t = true ↔ t ∈ s.accepted
  gone : ∀ t ∈ s.finished, ¬ s.state.Has t
  opened : ∀ k ∈ s.opened, s.state.range k ≠ none
  taskCount : s.taskCount = UInt64.ofNat (s.unfinished.card + s.opened.card)

theorem counted_init : Counted accounting.init :=
  ⟨Finset.Subset.refl _, fun t => ⟨fun h => (by cases h), fun h => absurd h (Finset.notMem_empty t)⟩,
    fun t ht => absurd ht (Finset.notMem_empty t), fun k hk => absurd hk (Finset.notMem_empty k), rfl⟩

variable {s s' : Accounts} {a : Act}

theorem ofNat_succ_sub_one (n : Nat) : UInt64.ofNat (n + 1) + 0 - 1 = UInt64.ofNat n := by
  rw [UInt64.add_zero, UInt64.ofNat_add]
  exact UInt64.add_sub_cancel _ _

/-- The task of `onErase` has been accepted, and is not finished yet. -/
theorem Counted.erases (h : Counted s) (ho : Owned s.state) {t : TaskId}
    (ht : s.state.erases a = some t) : t ∈ s.accepted ∧ t ∉ s.finished := by
  have hhas : s.state.Has t := by
    cases a with
    | process p =>
      dsimp only [State.erases] at ht
      split at ht
      · exact .inl ⟨p, .inr (.inr (.inr (.inl ht)))⟩
      · cases ht
    | _ => cases ht
  exact ⟨(h.added t).mp (ho.added t (ho.held_of_has hhas)), fun hf => h.gone t hf hhas⟩

/-- The new tasks have not been accepted before. -/
theorem Counted.tasks (h : Counted s) {s₁ : State} (hs : Coroutine.step s.state a = some s₁) :
    a.tasks.Nodup ∧ ∀ t ∈ a.tasks, t ∉ s.accepted := by
  have hfresh : ∀ ts, s.state.fresh ts = true → ts.Nodup ∧ ∀ t ∈ ts, t ∉ s.accepted := by
    intro ts hf
    refine ⟨?_, fun t ht hacc => ?_⟩
    · rw [State.fresh, Bool.and_eq_true, decide_eq_true_eq] at hf
      exact hf.1
    · have := not_added_of_fresh hf ht
      rw [(h.added t).mpr hacc] at this
      cases this
  cases steps_of_step hs with
  | addTask hf => exact hfresh _ hf
  | rangePush _ hf => exact hfresh _ hf
  | _ => exact ⟨List.nodup_nil, fun t ht => absurd ht List.not_mem_nil⟩

/-- How the number of unfinished tasks changes when tasks are accepted. -/
theorem Counted.card_accept (h : Counted s) {ts : List TaskId} (hnd : ts.Nodup)
    (hnew : ∀ t ∈ ts, t ∉ s.accepted) :
    ((s.accepted ∪ ts.toFinset) \ s.finished).card = s.unfinished.card + ts.length := by
  have hdis : Disjoint s.unfinished ts.toFinset := by
    rw [Finset.disjoint_left]
    exact fun t ht hts => hnew t (List.mem_toFinset.mp hts) (Finset.mem_sdiff.mp ht).1
  have hts : ts.toFinset \ s.finished = ts.toFinset := by
    rw [Finset.sdiff_eq_self_iff_disjoint, Finset.disjoint_left]
    exact fun t ht hf => hnew t (List.mem_toFinset.mp ht) (h.finished hf)
  rw [Finset.union_sdiff_distrib, hts, ← unfinished, Finset.card_union_of_disjoint hdis,
    List.toFinset_card_of_nodup hnd]

/-- How it changes when a task is finished. -/
theorem card_finish {t : TaskId} (ht : t ∈ s.accepted) (hf : t ∉ s.finished) :
    (s.accepted \ (s.finished ∪ {t})).card + 1 = s.unfinished.card := by
  have hmem : t ∈ s.unfinished := Finset.mem_sdiff.mpr ⟨ht, hf⟩
  rw [Finset.union_singleton, Finset.sdiff_insert]
  exact Finset.card_erase_add_one hmem

/-- The counter after a step. -/
theorem Counted.taskCount_step (h : Counted s) (ho : Owned s.state) (hc : CountsOne s a)
    (hs : s.step a = some s') :
    s'.taskCount = UInt64.ofNat (s'.unfinished.card + s'.opened.card) := by
  obtain ⟨s₁, hs₁, rfl⟩ := Option.map_eq_some_iff.mp hs
  obtain ⟨hnd, hnew⟩ := h.tasks hs₁
  have hcard := h.card_accept hnd hnew
  have hadd : ∀ n, UInt64.ofNat n + 1 - 0 = UInt64.ofNat (n + 1) := fun n => by
    rw [UInt64.sub_zero, UInt64.ofNat_add]
    rfl
  have hsame : ∀ n, UInt64.ofNat n + 0 - 0 = UInt64.ofNat n := fun n => by
    rw [UInt64.sub_zero, UInt64.add_zero]
  cases a with
  | give => exact hc.elim
  | addTask p o =>
    show s.taskCount + 1 - 0 =
      UInt64.ofNat (((s.accepted ∪ o.tasks.toFinset) \ (s.finished ∪ ∅)).card + s.opened.card)
    have hone : (Act.addTask p o).tasks.length = 1 := hc
    rw [Finset.union_empty, show o.tasks = (Act.addTask p o).tasks from rfl, hcard, hone, h.taskCount,
      hadd, Nat.add_right_comm]
  | rangeBegin k p =>
    have hk : k ∉ s.opened := fun hk => by
      cases steps_of_step hs₁ with
      | rangeBegin hr => exact h.opened k hk hr
    show s.taskCount + 1 - 0 =
      UInt64.ofNat (((s.accepted ∪ ∅) \ (s.finished ∪ ∅)).card + (insert k s.opened).card)
    rw [Finset.union_empty, Finset.union_empty, ← unfinished, Finset.card_insert_of_notMem hk,
      h.taskCount, hadd, Nat.add_assoc]
  | rangePush k t =>
    have hk : k ∈ s.opened := hc
    show s.taskCount + 0 - 0 =
      UInt64.ofNat (((s.accepted ∪ [t].toFinset) \ (s.finished ∪ ∅)).card + (s.opened.erase k).card)
    have hlen := Finset.card_erase_add_one hk
    rw [Finset.union_empty, show [t] = (Act.rangePush k t).tasks from rfl, hcard, h.taskCount, hsame,
      ← hlen]
    exact congrArg UInt64.ofNat (by simp only [Act.tasks, List.length_singleton]; omega)
  | rangeEnd k =>
    have hk : k ∉ s.opened := hc
    show s.taskCount + 0 - 0 =
      UInt64.ofNat (((s.accepted ∪ ∅) \ (s.finished ∪ ∅)).card + (s.opened.erase k).card)
    rw [Finset.union_empty, Finset.union_empty, ← unfinished, Finset.erase_eq_of_notMem hk,
      h.taskCount, hsame]
  | process p =>
    cases he : s.state.erases (.process p) with
    | none =>
      show s.taskCount + 0 - 0 = UInt64.ofNat (((s.accepted ∪ ∅) \ (s.finished ∪ ∅)).card + s.opened.card)
      rw [Finset.union_empty, Finset.union_empty, ← unfinished, h.taskCount, hsame]
    | some t =>
      obtain ⟨hacc, hfin⟩ := h.erases ho he
      show s.taskCount + 0 - 1 =
        UInt64.ofNat (((s.accepted ∪ ∅) \ (s.finished ∪ {t})).card + s.opened.card)
      rw [Finset.union_empty, h.taskCount, ← card_finish hacc hfin, Nat.add_right_comm,
        ofNat_succ_sub_one]
  | _ =>
    show s.taskCount + 0 - 0 = UInt64.ofNat (((s.accepted ∪ ∅) \ (s.finished ∪ ∅)).card + s.opened.card)
    rw [Finset.union_empty, Finset.union_empty, ← unfinished, h.taskCount, hsame]

/-- Every step that counts one keeps the account. -/
theorem Counted.step (h : Counted s) (ho : Owned s.state) (hc : CountsOne s a)
    (hs : s.step a = some s') : Counted s' := by
  have hcount := h.taskCount_step ho hc hs
  obtain ⟨s₁, hs₁, rfl⟩ := Option.map_eq_some_iff.mp hs
  refine ⟨fun t ht => ?_, fun t => ?_, fun t ht => ?_, fun k hk => ?_, hcount⟩
  · rcases Finset.mem_union.mp ht with ht | ht
    · exact Finset.mem_union_left _ (h.finished ht)
    · rw [Option.mem_toFinset, Option.mem_def] at ht
      exact Finset.mem_union_left _ (h.erases ho ht).1
  · rw [added_step hs₁, h.added, Finset.mem_union, List.mem_toFinset]
  · rcases Finset.mem_union.mp ht with ht | ht
    · intro hhas
      rcases has_step ho hs₁ hhas with hhas | hnew
      · exact h.gone t ht hhas
      · rw [(h.added t).mpr (h.finished ht)] at hnew
        cases hnew
    · rw [Option.mem_toFinset, Option.mem_def] at ht
      cases a with
      | process p =>
        dsimp only [State.erases] at ht
        split at ht
        · next hpc => exact not_has_erase ho hs₁ hpc ht
        · cases ht
      | _ => cases ht
  · cases a with
    | rangeBegin j p =>
      cases steps_of_step hs₁ with
      | rangeBegin hr =>
        show Function.update s.state.range j (some p) k ≠ none
        rcases Finset.mem_insert.mp hk with rfl | hk
        · rw [Function.update_self]
          exact Option.some_ne_none p
        · have hne : k ≠ j := fun e => h.opened k hk (e ▸ hr)
          rw [Function.update_of_ne hne]
          exact h.opened k hk
    | rangePush j t =>
      exact range_step hs₁ k (by simp) (h.opened k (Finset.mem_of_mem_erase hk))
    | rangeEnd j =>
      have hne : k ≠ j := Finset.ne_of_mem_erase hk
      exact range_step hs₁ k (by simp [hne.symm]) (h.opened k (Finset.mem_of_mem_erase hk))
    | _ => exact range_step hs₁ k (by simp) (h.opened k hk)

/-- The steps of the processors are steps of the scheduler. -/
theorem reachableBy_state (h : accounting.ReachableBy
    (fun s a => CountsOne s a ∧ StealsIdle s.state a) s) :
    scheduler.ReachableBy StealsIdle s.state := by
  induction h with
  | init => exact .init
  | step _ hp hs ih =>
    obtain ⟨s₁, hs₁, rfl⟩ := Option.map_eq_some_iff.mp hs
    exact .step ih hp.2 hs₁

/--
**`taskCount_` is the number of unfinished tasks**, in every run in which each call of `addTask` brings one
task and the balancer gives none back, whenever no range call stands between its `onAdd` and its task.
-/
theorem exact_of_countsOne (h : accounting.ReachableBy
    (fun s a => CountsOne s a ∧ StealsIdle s.state a) s) (hopened : s.opened = ∅) : s.Exact := by
  have hcounted : s.Counted :=
    h.invariant_of (fun _ => fun h => owned_of_reachableBy (reachableBy_state h)) counted_init
      fun _ _ _ ho hI hp hs => hI.step ho hp.1 hs
  have hcount := hcounted.taskCount
  rw [hopened, Finset.card_empty, Nat.add_zero] at hcount
  refine ⟨hcounted.finished, ?_, fun hlt => ?_⟩
  · rw [hcount, unfinished, Finset.card_sdiff_of_subset hcounted.finished]
  · rw [isEmpty, beq_iff_eq, hcount, ← Finset.card_eq_zero, eq_comm, ← UInt64.toNat_inj,
      UInt64.toNat_ofNat', Nat.mod_eq_of_lt hlt]
    rfl

/-- Two tasks, one of them by a range call; the first one ends. -/
def addsOne : List Act :=
  [.addTask 0 (.list [1]), .rangeBegin 0 0, .rangePush 0 2, .rangeEnd 0] ++
    .replicate 5 (.process 0) ++ [.finish 0 true] ++ .replicate 2 (.process 0)

theorem exact_addsOne : ∃ s, accounting.runBy (fun s a => CountsOne s a ∧ StealsIdle s.state a)
      accounting.init addsOne = some s ∧ s.finished = {1} ∧ s.taskCount = 1 ∧ s.Exact := by
  have hrun : (accounting.runBy (fun s a => CountsOne s a ∧ StealsIdle s.state a) accounting.init
      addsOne).map (fun s => (s.finished, s.taskCount, s.opened)) = some ({1}, 1, ∅) := by
    decide +kernel
  obtain ⟨s, hs, hq⟩ := Option.map_eq_some_iff.mp hrun
  rw [Prod.mk.injEq, Prod.mk.injEq] at hq
  exact ⟨s, hs, hq.1, hq.2.1, exact_of_countsOne (.of_runBy .init hs) hq.2.2⟩

/-- A list of two tasks counts as one. -/
theorem not_exact : ¬ ∀ s, accounting.Reachable s → s.opened = ∅ → s.Exact := by
  intro h
  have hrun : (accounting.run accounting.init [.addTask 0 (.list [1, 2])]).map
      (fun s => (s.taskCount, s.accepted.card, s.finished.card, s.opened)) = some (1, 2, 0, ∅) := by
    decide +kernel
  obtain ⟨s, hs, hq⟩ := Option.map_eq_some_iff.mp hrun
  simp only [Prod.mk.injEq] at hq
  have hcount := (h s (Lts.reachable_of_run hs) hq.2.2.2).taskCount
  rw [hq.1, hq.2.1, hq.2.2.1] at hcount
  cases hcount

end Accounts

end Nemo.Coroutine
