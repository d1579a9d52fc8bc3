import Nemo.Coroutine.Steps

/-!
# What a step does to one processor

`Processor.Moves` lists the changes that steps make to a single processor. A property of single
processors is kept by every step if these changes keep it (`forall_proc_step`), apart from the two
pushes that come without a notification and are left to the property.

The first such property is `RunningSet`: `runningTask_` holds a task exactly in the inner loop.
-/

namespace Nemo.Coroutine

open Function (update)

@[simp] theorem notifiNewQueCondition_runQue (P : Processor) :
    P.notifiNewQueCondition.runQue = P.runQue := by
  unfold Processor.notifiNewQueCondition
  split <;> rfl

@[simp] theorem notifiNewQueCondition_newQue (P : Processor) :
    P.notifiNewQueCondition.newQue = P.newQue := by
  unfold Processor.notifiNewQueCondition
  split <;> rfl

/-! ## What a step does to one processor -/

/--
The changes that steps make to one processor, whoever makes them. The two that put a task on a
queue without a notification, `TaskPointerDeleter` and the iterator-range `addTask`, are not
among them.
-/
inductive Processor.Moves (P : Processor) : Processor → Prop
  | popFront {t rest} (hpc : P.pc.popsRunQue) (hq : P.runQue = t :: rest) : Moves P (P.take t rest)
  | acquireMiss (hpc : P.pc = .acquire) : Moves P { P with pc := .popNew .retry }
  | popNew {k} (hpc : P.pc = .popNew k) :
      Moves P { P with inHand := P.newQue, newQue := [], pc := .pushNew k }
  | pushNew {k} (hpc : P.pc = .pushNew k) :
      Moves P { P with runQue := P.runQue ++ P.inHand, inHand := [], pc := k.pc }
  | retryMiss (hpc : P.pc = .retry) (hq : P.runQue = []) : Moves P { P with pc := .enterWait }
  | skipWait (hpc : P.pc = .enterWait) : Moves P { P with notified := false, pc := .popNew .acquire }
  | wait (hpc : P.pc = .enterWait) (hn : P.notified = false) :
      Moves P { P with waitting := true, pc := .blocked }
  | wakeUp (hpc : P.pc = .woken) : Moves P { P with waitting := false, pc := .popNew .acquire }
  | spurious (hpc : P.pc = .blocked) : Moves P { P with pc := .woken }
  | dispatch (hpc : P.pc = .dispatch) : Moves P { P with pc := .running }
  | swapOut (hpc : P.pc = .running) : Moves P { P with pc := .switching }
  | switch {pc} (hpc : P.pc = .switching)
      (h : pc ∈ [Pc.popNew .requeue, .requeue, .popNew .erase, .erase]) : Moves P { P with pc := pc }
  | takeNextTask (hpc : P.pc = .switching ∨ P.pc = .erase) : Moves P P.takeNextTask
  | requeue {t} (hpc : P.pc = .requeue) :
      Moves P { P with runQue := P.runQue ++ [t], runningTask := none, pc := .takeNext }
  | takeNextMiss (hpc : P.pc = .takeNext) : Moves P { P with runningTask := none, pc := .acquire }
  | eraseHit {t rest} (hpc : P.pc = .erase) :
      Moves P { P with newQue := rest, runningTask := some t, pc := .dispatch }
  | suspend {W r n} (ht : P.runningTask.isSome = true) :
      Moves P { P with waitSet := W, runQue := r, nextTask := n }
  | eraseWaitSet {W} : Moves P { P with waitSet := W }
  | notify : Moves P P.notifiNewQueCondition
  | addTask {ts} : Moves P (P.addTask ts)
  | stealNew {n} : Moves P { P with newQue := (stolenNew n P.newQue).2 }
  | stealRun {n} :
      Moves P { P with runQue := (ConcurrentLinkedDeque.popBackBulk n P.runQue).2 }

/-- The processor whose `TaskPointerDeleter` runs when `o` lets go of `e`. -/
def State.lastOwner (s : State) (e : SuspendId) (o : Owner) : Option ProcId :=
  (s.suspension e).bind fun b => if b.owners.erase o = ∅ then some b.processor else none

/-- The processor to which `a` pushes through the deleter of a suspension. -/
def State.deleterRuns (s : State) : Act → Option ProcId
  | .wakeRelease c =>
    match s.call c with
    | some ⟨e, .returning⟩ => s.lastOwner e (.caller c)
    | _ => none
  | .wakeErase c =>
    match s.call c with
    | some ⟨e, .locked⟩ =>
      (s.suspension e).bind fun b => (s.task b.task).processor.bind fun q =>
        ((s.proc q).waitSet b.task).bind fun e' => s.lastOwner e' .waitSet
    | _ => none
  | _ => none

/-- The processor to which `a` adds an element of an iterator range. -/
def State.rangePushes (s : State) : Act → Option ProcId
  | .rangePush k _ => s.range k
  | _ => none

theorem forall_modifyProc {I : Processor → Prop} {s : State} {p : ProcId}
    {f : Processor → Processor} (h : ∀ q, I (s.proc q)) (hf : I (f (s.proc p))) :
    ∀ q, I ((s.modifyProc p f).proc q) := by
  intro q
  rw [modifyProc_proc]
  split
  · exact hf
  · exact h q

/-- A property that the deleter's push does not disturb survives the end of an owner. -/
theorem forall_releaseOwner {I : Processor → Prop} {s : State} {e : SuspendId} {o : Owner}
    (h : ∀ q, I (s.proc q))
    (hpush : ∀ b, s.suspension e = some b → b.owners.erase o = ∅ →
      I { s.proc b.processor with runQue := (s.proc b.processor).runQue ++ [b.task] }) :
    ∀ q, I ((s.releaseOwner e o).proc q) := by
  rcases releaseOwner_proc s e o with hp | ⟨b, hb, ho, hp⟩
  · rw [hp]; exact h
  · rw [hp]; exact forall_modifyProc h (hpush b hb ho)

/-- `suspendBySelf` works on the fields of its own processor that only the running task touches. -/
theorem forall_suspendBySelf {I : Processor → Prop} {s : State} {p : ProcId} {t : TaskId}
    (h : ∀ q, I (s.proc q))
    (hp : ∀ W r n, I { s.proc p with waitSet := W, runQue := r, nextTask := n }) :
    ∀ q, I ((s.suspendBySelf p t).proc q) := by
  unfold State.suspendBySelf
  dsimp only
  refine forall_releaseOwner ?_ ?_
  · refine forall_modifyProc (forall_modifyProc h ?_) ?_
    · exact hp _ (s.proc p).runQue (s.proc p).nextTask
    · rw [modifyProc_proc_self]
      split
      · exact hp _ (s.proc p).runQue (s.proc p).nextTask
      · next t' rest _ => exact hp _ rest (some t')
  · intro b hb _
    have hbp : b.processor = p := by
      simp only [modifyProc_suspension, setSuspension_suspension, Function.update_self,
        Option.some.injEq] at hb
      rw [← hb]
    rw [hbp]
    simp only [modifyProc_proc_self]
    split
    · exact hp _ _ (s.proc p).nextTask
    · next t' rest _ => exact hp _ _ (some t')

theorem pc_of_atWork {s : State} {p : ProcId} (h : s.atWork p = true) :
    (s.proc p).pc = .running := by
  simp only [State.atWork, Bool.and_eq_true, decide_eq_true_eq] at h
  exact h.1

/--
**The rule for properties of single processors.** Such a property is kept by every step if the
`Moves` keep it and if it survives the pushes that this step makes without a notification.
-/
theorem forall_proc_step {I : Processor → Prop} {s s' : State} {a : Act}
    (hmove : ∀ P P', I P → Processor.Moves P P' → I P')
    (hdel : ∀ p t, p ∈ s.deleterRuns a → I (s.proc p) →
      I { s.proc p with runQue := (s.proc p).runQue ++ [t] })
    (hrange : ∀ p t, p ∈ s.rangePushes a → I (s.proc p) →
      I { s.proc p with newQue := (s.proc p).newQue ++ [t] })
    (h : ∀ p, I (s.proc p)) (hs : step s a = some s') : ∀ p, I (s'.proc p) := by
  have one : ∀ {p : ProcId} {f : Processor → Processor},
      Processor.Moves (s.proc p) (f (s.proc p)) → ∀ q, I ((s.modifyProc p f).proc q) :=
    fun hm => forall_modifyProc h (hmove _ _ (h _) hm)
  cases steps_of_step hs with
  | process hp =>
    cases hp with
    | popFront hpc hq => exact one (.popFront hpc hq)
    | acquireMiss hpc => exact one (.acquireMiss hpc)
    | popNew hpc => exact one (.popNew hpc)
    | pushNew hpc => exact one (.pushNew hpc)
    | retryMiss hpc hq => exact one (.retryMiss hpc hq)
    | skipWait hpc => exact one (.skipWait hpc)
    | wait hpc hn => exact one (.wait hpc hn)
    | wakeUp hpc => exact one (.wakeUp hpc)
    | swapIn hpc => exact one (f := ({ · with pc := .running })) (.dispatch hpc)
    | caseRunning hpc _ _ hk => exact one (.switch hpc (by rcases hk with rfl | rfl <;> simp))
    | caseBlock hpc => exact one (.takeNextTask (Or.inl hpc))
    | caseDone hpc _ _ hk => exact one (.switch hpc (by rcases hk with rfl | rfl <;> simp))
    | requeue hpc => exact one (.requeue hpc)
    | takeNextMiss hpc => exact one (.takeNextMiss hpc)
    | eraseHit hpc => exact one (.eraseHit hpc)
    | eraseMiss hpc => exact one (.takeNextTask (Or.inr hpc))
  | spurious hpc => exact one (.spurious hpc)
  | suspend _ _ _ hq =>
    exact forall_suspendBySelf h fun W r n => hmove _ _ (h _) (.suspend (by rw [hq]; rfl))
  | yield hw => exact one (.swapOut (pc_of_atWork hw))
  | finish _ hw => exact one (f := ({ · with pc := .switching })) (.swapOut (pc_of_atWork hw))
  | lockExpired => exact h
  | lock => exact h
  | eraseNone => exact h
  | @erase c e b p stage hc hb hp =>
    show ∀ q, I ((s.eraseWaitSet p b.task).proc q)
    unfold State.eraseWaitSet
    split
    · exact h
    · next e' he' =>
      have herased := one (p := p) (f := fun P => { P with waitSet := update P.waitSet b.task none })
        .eraseWaitSet
      refine forall_releaseOwner herased ?_
      intro b' hb' ho
      have hpush := hdel b'.processor b'.task (by
        rw [modifyProc_suspension] at hb'
        simp [State.deleterRuns, State.lastOwner, hc, hb, hp, he', hb', ho]) (h _)
      by_cases hq : b'.processor = p
      · rw [hq] at hpush ⊢
        rw [modifyProc_proc_self]
        exact hmove _ _ hpush .eraseWaitSet
      · rw [modifyProc_proc_ne _ _ hq]
        exact hpush
  | notify => exact one .notify
  | release hc =>
    refine forall_releaseOwner h fun b hb ho => hdel _ _ ?_ (h _)
    rw [setCall_suspension] at hb
    simp [State.deleterRuns, State.lastOwner, hc, hb, ho]
  | @addTask p o => exact one (f := (·.addTask o.tasks)) .addTask
  | rangeBegin => exact h
  | @rangePush k t p hr =>
    exact forall_modifyProc (f := fun P => { P with newQue := P.newQue ++ [t] }) h
      (hrange p t hr (h p))
  | rangeEnd => exact h
  | @stealNew p n =>
    exact one (f := ({ · with newQue := (stolenNew n (s.proc p).newQue).2 })) .stealNew
  | @stealRun p n =>
    exact one (f := ({ · with
      runQue := (ConcurrentLinkedDeque.popBackBulk n (s.proc p).runQue).2 })) .stealRun
  | @give p n =>
    exact one (f := (·.addTask (ConcurrentLinkedDeque.popFrontBulk n s.transfer).1)) .addTask

/-! ## `runningTask_` -/

/-- The places of the inner loop at which `runningTask_` holds a task. -/
def Pc.inner : Pc → Bool
  | .dispatch | .running | .switching | .requeue | .erase => true
  | .popNew k | .pushNew k =>
    match k with
    | .requeue | .erase => true
    | .retry | .acquire => false
  | .acquire | .retry | .enterWait | .blocked | .woken | .takeNext => false

/-- `runningTask_` holds a task exactly at the places of the inner loop. -/
def Processor.RunningSet (P : Processor) : Prop := P.runningTask.isSome = P.pc.inner

@[simp] theorem Pc.inner_afterAdd (k : AfterAdd) : k.pc.inner = (Pc.popNew k).inner := by
  cases k <;> rfl

theorem runningSet_notifiNewQueCondition {P : Processor} (h : P.RunningSet) :
    P.notifiNewQueCondition.RunningSet := by
  unfold Processor.RunningSet at h ⊢
  unfold Processor.notifiNewQueCondition
  split
  · dsimp only
    split
    · next hpc => rw [h, hpc]; rfl
    · exact h
  · exact h

theorem runningSet_moves (P P' : Processor) (h : P.RunningSet) (hm : Processor.Moves P P') :
    P'.RunningSet := by
  have hrun := h
  unfold Processor.RunningSet at h ⊢
  cases hm with
  | popFront => rfl
  | switch hpc hk =>
    simp only [List.mem_cons, List.not_mem_nil, or_false] at hk
    rcases hk with rfl | rfl | rfl | rfl <;> rw [h, hpc] <;> rfl
  | takeNextTask =>
    unfold Processor.takeNextTask
    dsimp only
    split
    · next hn => exact hn
    · next hn => simpa [Pc.inner] using hn
  | pushNew hpc => rw [h, hpc, Pc.inner_afterAdd]; rfl
  | notify => exact runningSet_notifiNewQueCondition hrun
  | addTask =>
    exact runningSet_notifiNewQueCondition (P := { P with newQue := P.newQue ++ _ }) hrun
  | requeue | takeNextMiss | eraseHit => rfl
  | suspend | eraseWaitSet | stealNew | stealRun => exact h
  | acquireMiss hpc | popNew hpc | retryMiss hpc | skipWait hpc | wait hpc | wakeUp hpc
  | spurious hpc | dispatch hpc | swapOut hpc => rw [h, hpc]; rfl

end Nemo.Coroutine
