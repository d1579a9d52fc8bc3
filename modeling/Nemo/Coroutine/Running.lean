import Nemo.Coroutine.Handshake
import Nemo.Coroutine.SuspensionStep

/-!
# Running tasks

Two consequences of the ownership invariant: a task is swapped in by one processor at a time, and
no task is lost.

Both fail in runs in which the balancer takes a woken task from the `runQue_` of the processor
that has not yet left its `swapIn()`: the other processor sets the state of the task back to
`RUNNING`, so that the first one, after the `Yield`, goes into the wrong branch of its `switch`.
-/

namespace Nemo.Coroutine

open Infra

/-! ## A task runs on one processor -/

/-- The task that a processor is about to swap in is the running task of nobody else. -/
def State.SwapsInAlone (s : State) : Prop :=
  ∀ p t, (s.proc p).pc = .dispatch → (s.proc p).runningTask = some t →
    ∀ q, (s.proc q).runningTask = some t → q = p

/--
**A task runs on at most one processor**, as long as the balancer does not steal the running task
of a processor.
-/
theorem swapsInAlone_of_stealsIdle {s : State} (h : scheduler.ReachableBy StealsIdle s) :
    s.SwapsInAlone :=
  fun _ _ _ hp _ hq => (owned_of_reachableBy h).runningTask_unique hq hp

/-- A whole `WakeUp`. -/
def wakeUp (c : Caller) (e : SuspendId) : List Act :=
  [.wakeLock c e, .wakeErase c, .wakeNotify c, .wakeRelease c]

/-- The balancer moves one task from `p` to `q`. -/
def stealOne (p q : ProcId) : List Act := [.stealNew p 1, .stealRun, .give q 1]

/-- Processor 0 runs the first of the tasks `ts`, which calls `Suspend` and is woken before its
`Yield`. -/
def wokenInWindow (ts : List TaskId) : List Act :=
  [.addTask 0 (.list ts)] ++ processSteps 0 5 ++ [.suspend 0] ++ wakeUp (.other 0) 0

/-- A task moves to another processor after its `Yield`. -/
theorem swapsInAlone_afterYield :
    ∃ s, scheduler.runBy StealsIdle scheduler.init (wokenInWindow [1] ++ [.yield 0] ++
        processSteps 0 1 ++ stealOne 0 1 ++ processSteps 1 4) = some s ∧
      (s.proc 1).runningTask = some 1 ∧ s.SwapsInAlone := by
  have hrun : (scheduler.runBy StealsIdle scheduler.init (wokenInWindow [1] ++ [.yield 0] ++
      processSteps 0 1 ++ stealOne 0 1 ++ processSteps 1 4)).map
        (fun s => (s.proc 1).runningTask) = some (some 1) := by decide +kernel
  obtain ⟨s, hs, hq⟩ := Option.map_eq_some_iff.mp hrun
  exact ⟨s, hs, hq, swapsInAlone_of_stealsIdle (.of_runBy .init hs)⟩

/-- A task moves to another processor before its `Yield`. -/
def migrates : List Act := wokenInWindow [1] ++ stealOne 0 1 ++ processSteps 1 4

/-- Processor 1 is about to swap in the task that processor 0 still runs. -/
theorem not_swapsInAlone : ¬ ∀ s, scheduler.Reachable s → s.SwapsInAlone := by
  intro hall
  have hrun : (scheduler.run scheduler.init migrates).map
      (fun s => ((s.proc 1).pc, (s.proc 1).runningTask, (s.proc 0).runningTask))
        = some (.dispatch, some 1, some 1) := by decide +kernel
  obtain ⟨s, hs, hq⟩ := Option.map_eq_some_iff.mp hrun
  simp only [Prod.mk.injEq] at hq
  have heq := hall s (Lts.reachable_of_run hs) 1 1 hq.1 hq.2.1 0 hq.2.2
  cases heq

/-! ## No task is lost -/

/-- The task is in one of the places from which it can go on: a queue, `waitSet_`, `runningTask_`
or `nextTask_` of a processor, or a `WakeUp` in progress. -/
def State.KeptFor (s : State) (t : TaskId) : Prop :=
  (∃ p, t ∈ (s.proc p).newQue ∨ t ∈ (s.proc p).runQue ∨ ((s.proc p).waitSet t).isSome ∨
    (s.proc p).runningTask = some t ∨ (s.proc p).nextTask = some t) ∨
  ∃ c e st b, s.call c = some ⟨e, st⟩ ∧ s.suspension e = some b ∧ b.task = t

/-- The task is on its way from one queue to another. -/
def State.Moving (s : State) (t : TaskId) : Prop :=
  (∃ p, t ∈ (s.proc p).inHand) ∨ t ∈ s.transfer

/-- Every task that has not ended is kept, and a `Suspend` finds `nextTask_` empty. -/
structure State.NoTaskLost (s : State) : Prop where
  kept : ∀ t, s.added t = true → ¬ s.Ended t → s.KeptFor t ∨ s.Moving t
  nextTask : ∀ p s', step s (.suspend p) = some s' → ∀ t q, (s.proc p).runningTask = some t →
    (s.task t).processor = some q → (s.proc q).nextTask = none

/-- What is owned through a control block is in `waitSet_` or in the hands of a `WakeUp`. -/
theorem SuspensionOk.kept {s : State} {e : SuspendId} {b : Suspension} (h : SuspensionOk s e b)
    (hb : s.suspension e = some b) (ho : b.owners ≠ ∅) : s.KeptFor b.task := by
  obtain ⟨o, hmem⟩ := Finset.nonempty_iff_ne_empty.mpr ho
  cases o with
  | taskPtr => exact absurd hmem h.taskPtr
  | waitSet =>
    refine Or.inl ⟨b.processor, Or.inr (Or.inr (Or.inl ?_))⟩
    rw [h.waitSet hmem]
    rfl
  | caller c =>
    obtain ⟨st, hc⟩ := (h.caller c).mp hmem
    exact Or.inr ⟨c, e, st, b, hc, hb, rfl⟩

theorem Owned.kept {s : State} (h : Owned s) {t : TaskId} (ht : Held s.held t) :
    s.KeptFor t ∨ s.Moving t := by
  obtain ⟨i, hi⟩ := ht
  cases i with
  | proc p i =>
    cases i with
    | newQue => exact Or.inl (Or.inl ⟨p, Or.inl hi⟩)
    | runQue => exact Or.inl (Or.inl ⟨p, Or.inr (Or.inl hi)⟩)
    | inHand => exact Or.inr (Or.inl ⟨p, hi⟩)
    | runningTask =>
      simp only [State.held, Processor.held, List.mem_filter, Option.mem_toList] at hi
      exact Or.inl (Or.inl ⟨p, Or.inr (Or.inr (Or.inr (Or.inl hi.1)))⟩)
    | nextTask =>
      simp only [State.held, Processor.held, Option.mem_toList] at hi
      exact Or.inl (Or.inl ⟨p, Or.inr (Or.inr (Or.inr (Or.inr hi)))⟩)
  | suspension e =>
    cases hb : s.suspension e with
    | none => simp [State.held, hb] at hi
    | some b =>
      by_cases ho : b.owners = ∅
      · simp [State.held, hb, Suspension.held, ho] at hi
      · rw [held_suspension hb ho, List.mem_singleton] at hi
        exact Or.inl (hi ▸ (h.suspensions.ok e b hb).kept hb ho)
  | transfer => exact Or.inr (Or.inr hi)

/--
**No task is lost**, as long as the balancer does not steal the running task of a processor.
-/
theorem noTaskLost_of_stealsIdle {s : State} (h : scheduler.ReachableBy StealsIdle s) :
    s.NoTaskLost := by
  have how := owned_of_reachableBy h
  refine ⟨fun t ht hend => how.kept (how.held t ht hend), fun p s' hs t q ht hp => ?_⟩
  cases steps_of_step hs with
  | suspend ht' hp' _ hq hst =>
    obtain rfl := Option.some.inj (ht.symm.trans ht')
    obtain rfl := Option.some.inj (hp.symm.trans hp')
    exact (how.agrees q).nextTask_none_of_running hq (by simp [hst])

/-- Two tasks on one processor, of which the first suspends itself. -/
theorem noTaskLost_suspend :
    ∃ s, scheduler.runBy StealsIdle scheduler.init (wokenInWindow [1, 2] ++ [.yield 0] ++
        processSteps 0 2) = some s ∧ (s.proc 0).runningTask = some 2 ∧ s.NoTaskLost := by
  have hrun : (scheduler.runBy StealsIdle scheduler.init (wokenInWindow [1, 2] ++ [.yield 0] ++
      processSteps 0 2)).map (fun s => (s.proc 0).runningTask) = some (some 2) := by decide +kernel
  obtain ⟨s, hs, hq⟩ := Option.map_eq_some_iff.mp hrun
  exact ⟨s, hs, hq, noTaskLost_of_stealsIdle (.of_runBy .init hs)⟩

/--
Task 1 suspends itself, so that `nextTask_` holds task 2. It is woken and moves to processor 1
before its `Yield`. Processor 0 finds it `RUNNING` again and leaves `nextTask_` as it is; then it
runs task 3, whose `Suspend` overwrites `nextTask_`.
-/
def overwrites : List Act :=
  wokenInWindow [1, 2] ++ stealOne 0 1 ++ processSteps 1 5 ++
    [.yield 0, .addTask 0 (.uniquePtr 3)] ++ processSteps 0 6 ++ [.suspend 0]

theorem not_noTaskLost : ¬ ∀ s, scheduler.Reachable s → s.NoTaskLost := by
  intro hall
  have hrun : (scheduler.run scheduler.init overwrites).map
      (fun s => (s.added 2, (s.task 2).state, s.transfer)) = some (true, .ready, []) := by
    decide +kernel
  have hproc : ∀ p, (scheduler.run scheduler.init overwrites).map (fun s =>
      (decide (2 ∈ (s.proc p).newQue), decide (2 ∈ (s.proc p).runQue),
        ((s.proc p).waitSet 2).isSome, decide ((s.proc p).runningTask = some 2),
        decide ((s.proc p).nextTask = some 2), decide (2 ∈ (s.proc p).inHand)))
      = some (false, false, false, false, false, false) := by
    rintro (_ | _ | p) <;> rfl
  have hcall : ∀ c, (scheduler.run scheduler.init overwrites).map (·.call c) = some none := by
    rintro (p | (_ | k)) <;> rfl
  obtain ⟨s, hs, hq⟩ := Option.map_eq_some_iff.mp hrun
  simp only [Prod.mk.injEq] at hq
  simp only [hs, Option.map_some, Option.some.injEq, Prod.mk.injEq, decide_eq_false_iff_not]
    at hproc hcall
  have hend : ¬ s.Ended 2 := by simp [State.Ended, hq.2.1, TaskState.ended]
  rcases (hall s (Lts.reachable_of_run hs)).kept 2 hq.1 hend with
    (⟨p, h1 | h2 | h3 | h4 | h5⟩ | ⟨c, e, st, b, hc, -⟩) | (⟨p, h6⟩ | h7)
  · exact (hproc p).1 h1
  · exact (hproc p).2.1 h2
  · rw [(hproc p).2.2.1] at h3
    cases h3
  · exact (hproc p).2.2.2.1 h4
  · exact (hproc p).2.2.2.2.1 h5
  · rw [hcall c] at hc
    cases hc
  · exact (hproc p).2.2.2.2.2 h6
  · rw [hq.2.2] at h7
    cases h7

end Nemo.Coroutine
