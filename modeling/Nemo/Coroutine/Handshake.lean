import Nemo.Coroutine.Moves

/-!
# Sleeping processors and notifications

A processor goes to sleep in `waitNewQueCondition` after it has found its queues empty. Between
the last look at a queue and the sleep there is a window in which only `notified_` can call it back.

* `Asleep` — the last look at `runQue_` is over and nothing will call the processor back
* `AsleepNew` — the same for `newQue_`, whose last look is earlier

`WakeUp` notifies in `wakeUpBySelf` and puts the task on `runQue_` only afterwards, when its local
`shared_ptr` goes away, so the notification can be used up before the task is there.
What the code does guarantee is stated over the runs in which the deleter never meets a processor
that is asleep.
-/

namespace Nemo.Coroutine

open Function (update)
open Infra

/-! ## The window before the sleep -/

/-- `process()` will not look at `runQue_` before somebody notifies. -/
def Processor.Asleep (P : Processor) : Prop :=
  P.pc = .blocked ∨ (P.pc = .enterWait ∧ P.notified = false)

instance (P : Processor) : Decidable P.Asleep := inferInstanceAs (Decidable (_ ∨ _))

/-- `process()` will not look at `newQue_` before somebody notifies. -/
def Processor.AsleepNew (P : Processor) : Prop :=
  P.pc = .blocked ∨
    ((P.pc = .pushNew .retry ∨ P.pc = .retry ∨ P.pc = .enterWait) ∧ P.notified = false)

instance (P : Processor) : Decidable P.AsleepNew := inferInstanceAs (Decidable (_ ∨ _))

/-- `waitting_` is set exactly while the thread is in the wait or on its way out of it. -/
def Processor.WaittingSet (P : Processor) : Prop :=
  P.waitting = true ↔ P.pc = .blocked ∨ P.pc = .woken

/-- A notification puts nobody to sleep. -/
theorem asleep_of_notifiNewQueCondition {P : Processor}
    (h : P.notifiNewQueCondition.Asleep) : P.Asleep := by
  unfold Processor.notifiNewQueCondition at h
  split at h
  · rcases h with h | ⟨h, hn⟩
    · dsimp only at h
      split at h
      · cases h
      · exact Or.inl h
    · dsimp only at h hn
      split at h
      · cases h
      · exact Or.inr ⟨h, hn⟩
  · rcases h with h | ⟨_, hn⟩
    · exact Or.inl h
    · cases hn

/-- After a notification the processor will look at `newQue_` again. -/
theorem not_asleepNew_notifiNewQueCondition {P : Processor} (hw : P.WaittingSet) :
    ¬ P.notifiNewQueCondition.AsleepNew := by
  intro h
  unfold Processor.notifiNewQueCondition at h
  split at h
  · next hwt =>
    rcases hw.mp hwt with hpc | hpc <;> simp [Processor.AsleepNew, hpc] at h
  · next hwt =>
    have hpc : ¬ (P.pc = .blocked ∨ P.pc = .woken) := fun hpc => hwt (hw.mpr hpc)
    rcases h with h | ⟨_, hn⟩
    · exact hpc (Or.inl h)
    · cases hn

theorem waittingSet_notifiNewQueCondition {P : Processor} (hw : P.WaittingSet) :
    P.notifiNewQueCondition.WaittingSet := by
  unfold Processor.notifiNewQueCondition
  split
  · next hwt =>
    rcases hw.mp hwt with hpc | hpc <;> simp [Processor.WaittingSet, hpc, hwt]
  · next hwt => simpa [Processor.WaittingSet, hwt] using hw

/-! ## `waitting_` -/

theorem waittingSet_moves (P P' : Processor) (h : P.WaittingSet) (hm : Processor.Moves P P') :
    P'.WaittingSet := by
  cases hm with
  | popFront hpc =>
    rcases hpc with hpc | hpc | hpc <;> simpa [Processor.WaittingSet, Processor.take, hpc] using h
  | pushNew hpc =>
    rename_i k
    cases k <;> simpa [Processor.WaittingSet, AfterAdd.pc, hpc] using h
  | switch hpc hk =>
    simp only [List.mem_cons, List.not_mem_nil, or_false] at hk
    rcases hk with rfl | rfl | rfl | rfl <;> simpa [Processor.WaittingSet, hpc] using h
  | takeNextTask hpc =>
    have hpc' : P.takeNextTask.pc ≠ .blocked ∧ P.takeNextTask.pc ≠ .woken := by
      simp only [Processor.takeNextTask]
      split <;> simp
    have hw : P.takeNextTask.waitting = P.waitting := rfl
    rcases hpc with hpc | hpc <;> simpa [Processor.WaittingSet, hw, hpc, hpc'] using h
  | wait => simp [Processor.WaittingSet]
  | wakeUp => simp [Processor.WaittingSet]
  | spurious hpc => simpa [Processor.WaittingSet, hpc] using h
  | notify => exact waittingSet_notifiNewQueCondition h
  | addTask => exact waittingSet_notifiNewQueCondition (P := { P with newQue := P.newQue ++ _ }) h
  | suspend | eraseWaitSet | stealNew | stealRun => exact h
  | acquireMiss hpc | popNew hpc | retryMiss hpc | skipWait hpc | dispatch hpc | swapOut hpc
  | requeue hpc | takeNextMiss hpc | eraseHit hpc => simpa [Processor.WaittingSet, hpc] using h

/-! ## A task woken from outside -/

/--
No task is left on the `runQue_` of a processor that sleeps, once the `WakeUp` calls are over:
`p` is in the wait, no notification is pending, and no `WakeUp` is in progress.
-/
def State.NoLostWakeUp (s : State) : Prop :=
  ∀ p, (s.proc p).pc = .blocked → (s.proc p).notified = false → (∀ c, s.call c = none) →
    (s.proc p).runQue = []

/-- The deleter does not run for a processor that has had its last look at `runQue_`. -/
def DeleterMeetsAwake (s : State) (a : Act) : Prop :=
  ∀ p ∈ s.deleterRuns a, ¬ (s.proc p).Asleep

instance : ∀ s a, Decidable (DeleterMeetsAwake s a) := fun s a =>
  inferInstanceAs (Decidable (∀ p ∈ s.deleterRuns a, ¬ (s.proc p).Asleep))

/-- What is kept of each processor: an empty `runQue_` while it sleeps. -/
structure Processor.RunQueSeen (P : Processor) : Prop where
  runningSet : P.RunningSet
  runQue : P.Asleep → P.runQue = []

theorem not_asleep_of_inner {P : Processor} (h : P.RunningSet) (ht : P.runningTask.isSome = true) :
    ¬ P.Asleep := by
  unfold Processor.RunningSet at h
  rw [h] at ht
  rintro (hpc | ⟨hpc, -⟩) <;> simp [hpc, Pc.inner] at ht

theorem runQueSeen_moves (P P' : Processor) (h : P.RunQueSeen) (hm : Processor.Moves P P') :
    P'.RunQueSeen := by
  refine ⟨runningSet_moves P P' h.runningSet hm, fun ha => ?_⟩
  cases hm with
  | retryMiss _ hq => exact hq
  | wait hpc hn => exact h.runQue (Or.inr ⟨hpc, hn⟩)
  | notify =>
    rw [notifiNewQueCondition_runQue]
    exact h.runQue (asleep_of_notifiNewQueCondition ha)
  | @addTask ts =>
    unfold Processor.addTask at ha ⊢
    rw [notifiNewQueCondition_runQue]
    exact h.runQue (asleep_of_notifiNewQueCondition (P := { P with newQue := P.newQue ++ ts }) ha)
  | stealRun =>
    have hnil : P.runQue = [] := h.runQue ha
    dsimp only
    rw [hnil]
    rfl
  | eraseWaitSet | stealNew => exact h.runQue ha
  | suspend ht => exact absurd ha (not_asleep_of_inner h.runningSet ht)
  | @pushNew k => cases k <;> simp [Processor.Asleep, AfterAdd.pc] at ha
  | switch _ hk =>
    simp only [List.mem_cons, List.not_mem_nil, or_false] at hk
    rcases hk with rfl | rfl | rfl | rfl <;> simp [Processor.Asleep] at ha
  | takeNextTask =>
    simp only [Processor.Asleep, Processor.takeNextTask] at ha
    split at ha <;> simp at ha
  | popFront => simp [Processor.Asleep, Processor.take] at ha
  | acquireMiss | popNew | skipWait | wakeUp | spurious | dispatch | swapOut | requeue
  | takeNextMiss | eraseHit => simp [Processor.Asleep] at ha

/-- A processor that is asleep has nothing on its `runQue_`. -/
theorem runQueSeen_of_reachableBy {s : State} (h : scheduler.ReachableBy DeleterMeetsAwake s) :
    ∀ p, (s.proc p).RunQueSeen := by
  refine h.invariant (I := fun s => ∀ p, (s.proc p).RunQueSeen)
    (fun p => ⟨rfl, fun _ => rfl⟩) fun s a s' hI hp hs => ?_
  refine forall_proc_step runQueSeen_moves ?_ ?_ hI hs
  · exact fun p t hd hq => ⟨hq.runningSet, fun ha => absurd ha (hp p hd)⟩
  · exact fun p t _ hq => ⟨hq.runningSet, hq.runQue⟩

/--
**No lost wake-up, as long as the deleter finds its processor awake.** In every run in which the
last owner of a suspension never goes away while the processor sleeps, or is about to sleep
without a pending notification, a sleeping processor has an empty `runQue_`.
-/
theorem noLostWakeUp_of_deleterMeetsAwake {s : State}
    (h : scheduler.ReachableBy DeleterMeetsAwake s) : s.NoLostWakeUp :=
  fun p hpc _ _ => (runQueSeen_of_reachableBy h p).runQue (Or.inl hpc)

/-- `process()` of `p` takes `n` steps. -/
def processSteps (p : ProcId) (n : Nat) : List Act := List.replicate n (.process p)

/-- Task 1 is added to processor 0, which runs it; the task suspends itself, and the processor
sleeps. -/
def suspendAndSleep : List Act :=
  [.addTask 0 (.uniquePtr 1)] ++ processSteps 0 5 ++ [.suspend 0, .yield 0] ++ processSteps 0 13

/-- A `WakeUp` from another thread that is over before the processor looks at its queues again. -/
def promptRelease : List Act :=
  suspendAndSleep ++
    [.wakeLock (.other 0) 0, .wakeErase (.other 0), .wakeNotify (.other 0), .wakeRelease (.other 0)]

/-- A `WakeUp` that returns in time leaves its task with a processor that has been called back. -/
theorem noLostWakeUp_promptRelease :
    ∃ s, scheduler.runBy DeleterMeetsAwake scheduler.init promptRelease = some s ∧
      (s.proc 0).runQue = [1] ∧ s.NoLostWakeUp := by
  have hrun : (scheduler.runBy DeleterMeetsAwake scheduler.init promptRelease).map
      (fun s => (s.proc 0).runQue) = some [1] := by decide +kernel
  obtain ⟨s, hs, hq⟩ := Option.map_eq_some_iff.mp hrun
  exact ⟨s, hs, hq, noLostWakeUp_of_deleterMeetsAwake (.of_runBy .init hs)⟩

/--
A `WakeUp` that notifies and is then delayed. The processor looks at its empty queues and sleeps
again, and only then the `WakeUp` returns and its `shared_ptr` puts the task on `runQue_`.
-/
def lateRelease : List Act :=
  suspendAndSleep ++ [.wakeLock (.other 0) 0, .wakeErase (.other 0), .wakeNotify (.other 0)] ++
    processSteps 0 8 ++ [.wakeRelease (.other 0)]

/-- A late `WakeUp` leaves a runnable task on a processor that sleeps. -/
theorem not_noLostWakeUp : ¬ ∀ s, scheduler.Reachable s → s.NoLostWakeUp := by
  intro hall
  have hrun : (scheduler.run scheduler.init lateRelease).map
      (fun s => ((s.proc 0).pc, (s.proc 0).notified, (s.proc 0).runQue))
        = some (.blocked, false, [1]) := by decide +kernel
  have hcall : ∀ c, (scheduler.run scheduler.init lateRelease).map (·.call c) = some none := by
    rintro (p | (_ | k)) <;> rfl
  obtain ⟨s, hs, hq⟩ := Option.map_eq_some_iff.mp hrun
  simp only [Prod.mk.injEq] at hq
  obtain ⟨hpc, hn, hq⟩ := hq
  simp only [hs, Option.map_some, Option.some.injEq] at hcall
  have hnil := hall s (Lts.reachable_of_run hs) 0 hpc hn hcall
  rw [hq] at hnil
  cases hnil

/-! ## A new task -/

/--
No task is left on the `newQue_` of a processor that sleeps, once the `addTask` calls are over.
Only the iterator-range template takes more than one step.
-/
def State.NoLostNotification (s : State) : Prop :=
  ∀ p, (s.proc p).pc = .blocked → (s.proc p).notified = false → (∀ k, s.range k = none) →
    (s.proc p).newQue = []

/-- The iterator-range `addTask` does not push to a processor that has had its last look at
`newQue_`. -/
def RangeMeetsAwake (s : State) (a : Act) : Prop :=
  ∀ p ∈ s.rangePushes a, ¬ (s.proc p).AsleepNew

instance : ∀ s a, Decidable (RangeMeetsAwake s a) := fun s a =>
  inferInstanceAs (Decidable (∀ p ∈ s.rangePushes a, ¬ (s.proc p).AsleepNew))

/-- What is kept of each processor: an empty `newQue_` while it sleeps. -/
structure Processor.NewQueSeen (P : Processor) : Prop where
  runningSet : P.RunningSet
  waittingSet : P.WaittingSet
  newQue : P.AsleepNew → P.newQue = []

theorem stolenNew_nil (n : Nat) : (stolenNew n []).2 = [] := by
  unfold stolenNew
  split
  · rw [ConcurrentLinkedDeque.popBackBulk_eq]
    exact List.take_nil
  · rfl

theorem newQueSeen_moves (P P' : Processor) (h : P.NewQueSeen) (hm : Processor.Moves P P') :
    P'.NewQueSeen := by
  refine ⟨runningSet_moves P P' h.runningSet hm, waittingSet_moves P P' h.waittingSet hm,
    fun ha => ?_⟩
  cases hm with
  | popNew => rfl
  | @pushNew k hpc =>
    cases k with
    | retry =>
      simp [Processor.AsleepNew, AfterAdd.pc] at ha
      exact h.newQue (Or.inr ⟨Or.inl hpc, ha⟩)
    | acquire | requeue | erase => simp [Processor.AsleepNew, AfterAdd.pc] at ha
  | retryMiss hpc =>
    simp [Processor.AsleepNew] at ha
    exact h.newQue (Or.inr ⟨Or.inr (Or.inl hpc), ha⟩)
  | wait hpc hn => exact h.newQue (Or.inr ⟨Or.inr (Or.inr hpc), hn⟩)
  | notify => exact absurd ha (not_asleepNew_notifiNewQueCondition h.waittingSet)
  | @addTask ts =>
    exact absurd ha (not_asleepNew_notifiNewQueCondition (P := { P with newQue := P.newQue ++ ts })
      h.waittingSet)
  | stealNew =>
    have hnil : P.newQue = [] := h.newQue ha
    dsimp only
    rw [hnil, stolenNew_nil]
  | eraseWaitSet | stealRun | suspend => exact h.newQue ha
  | switch _ hk =>
    simp only [List.mem_cons, List.not_mem_nil, or_false] at hk
    rcases hk with rfl | rfl | rfl | rfl <;> simp [Processor.AsleepNew] at ha
  | takeNextTask =>
    simp only [Processor.AsleepNew, Processor.takeNextTask] at ha
    split at ha <;> simp at ha
  | popFront => simp [Processor.AsleepNew, Processor.take] at ha
  | acquireMiss | skipWait | wakeUp | spurious | dispatch | swapOut | requeue
  | takeNextMiss | eraseHit => simp [Processor.AsleepNew] at ha

theorem newQueSeen_of_reachableBy {s : State} (h : scheduler.ReachableBy RangeMeetsAwake s) :
    ∀ p, (s.proc p).NewQueSeen := by
  refine h.invariant (I := fun s => ∀ p, (s.proc p).NewQueSeen)
    (fun p => ⟨rfl, by simp [Processor.WaittingSet, scheduler], fun _ => rfl⟩)
    fun s a s' hI hp hs => ?_
  refine forall_proc_step newQueSeen_moves ?_ ?_ hI hs
  · exact fun p t _ hq => ⟨hq.runningSet, hq.waittingSet, hq.newQue⟩
  · exact fun p t hr hq => ⟨hq.runningSet, hq.waittingSet, fun ha => absurd ha (hp p hr)⟩

/--
**No lost notification, as long as an iterator range finds its processor awake.** The six locking
overloads are unrestricted.
-/
theorem noLostNotification_of_rangeMeetsAwake {s : State}
    (h : scheduler.ReachableBy RangeMeetsAwake s) : s.NoLostNotification :=
  fun p hpc _ _ => (newQueSeen_of_reachableBy h p).newQue (Or.inl hpc)

/-- An iterator range is added to a processor that has not started to look at its queues. -/
def rangeWhileAwake : List Act := [.rangeBegin 0 0, .rangePush 0 1, .rangePush 0 2, .rangeEnd 0]

/-- Tasks added by a range to a processor that is awake are seen. -/
theorem noLostNotification_rangeWhileAwake :
    ∃ s, scheduler.runBy RangeMeetsAwake scheduler.init
        (rangeWhileAwake ++ processSteps 0 2) = some s ∧
      (s.proc 0).inHand = [1, 2] ∧ s.NoLostNotification := by
  have hrun : (scheduler.runBy RangeMeetsAwake scheduler.init
      (rangeWhileAwake ++ processSteps 0 2)).map (fun s => (s.proc 0).inHand) = some [1, 2] := by
    decide +kernel
  obtain ⟨s, hs, hq⟩ := Option.map_eq_some_iff.mp hrun
  exact ⟨s, hs, hq, noLostNotification_of_rangeMeetsAwake (.of_runBy .init hs)⟩

/-- A processor sleeps, and then a range is added to it. -/
def rangeWhileAsleep : List Act :=
  processSteps 0 5 ++ [.rangeBegin 0 0, .rangePush 0 1, .rangeEnd 0]

/-- The range leaves a task on the `newQue_` of a processor that sleeps. -/
theorem not_noLostNotification : ¬ ∀ s, scheduler.Reachable s → s.NoLostNotification := by
  intro hall
  have hrun : (scheduler.run scheduler.init rangeWhileAsleep).map
      (fun s => ((s.proc 0).pc, (s.proc 0).notified, (s.proc 0).newQue))
        = some (.blocked, false, [1]) := by decide +kernel
  have hrange : ∀ k, (scheduler.run scheduler.init rangeWhileAsleep).map (·.range k)
      = some none := by
    rintro (_ | k) <;> rfl
  obtain ⟨s, hs, hq⟩ := Option.map_eq_some_iff.mp hrun
  simp only [Prod.mk.injEq] at hq
  obtain ⟨hpc, hn, hq⟩ := hq
  simp only [hs, Option.map_some, Option.some.injEq] at hrange
  have hnil := hall s (Lts.reachable_of_run hs) 0 hpc hn hrange
  rw [hq] at hnil
  cases hnil

end Nemo.Coroutine
