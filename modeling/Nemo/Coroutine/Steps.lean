import Nemo.Coroutine.Processor

/-!
# What a step can do

`Steps s a s'` lists every way in which `step s a = some s'` can come about, with the guards that
were passed and the new state. `steps_of_step` is the inversion; the proofs about runs start from
it and do not unfold `step` again.
-/

namespace Nemo.Coroutine

open Function (update)
open Nemo.ConcurrentLinkedDeque

/-! ## Updates -/

section Updates

variable (s : State) (p q : ProcId) (t : TaskId) (e : SuspendId) (c : Caller)

@[simp] theorem modifyProc_proc_self (f : Processor → Processor) :
    (s.modifyProc p f).proc p = f (s.proc p) := by simp [State.modifyProc]

theorem modifyProc_proc (f : Processor → Processor) :
    (s.modifyProc p f).proc q = if q = p then f (s.proc p) else s.proc q := by
  simp [State.modifyProc, Function.update_apply]

@[simp] theorem modifyProc_proc_ne {p q : ProcId} (f : Processor → Processor) (h : q ≠ p) :
    (s.modifyProc p f).proc q = s.proc q := by simp [State.modifyProc, h]

@[simp] theorem modifyProc_task (f) : (s.modifyProc p f).task = s.task := rfl
@[simp] theorem modifyProc_suspension (f) : (s.modifyProc p f).suspension = s.suspension := rfl
@[simp] theorem modifyProc_nextSuspension (f) :
    (s.modifyProc p f).nextSuspension = s.nextSuspension := rfl
@[simp] theorem modifyProc_call (f) : (s.modifyProc p f).call = s.call := rfl
@[simp] theorem modifyProc_range (f) : (s.modifyProc p f).range = s.range := rfl
@[simp] theorem modifyProc_transfer (f) : (s.modifyProc p f).transfer = s.transfer := rfl
@[simp] theorem modifyProc_stealing (f) : (s.modifyProc p f).stealing = s.stealing := rfl
@[simp] theorem modifyProc_added (f) : (s.modifyProc p f).added = s.added := rfl

@[simp] theorem setTask_proc (x) : (s.setTask t x).proc = s.proc := rfl
@[simp] theorem setTask_task (x) : (s.setTask t x).task = update s.task t x := rfl
@[simp] theorem setTask_suspension (x) : (s.setTask t x).suspension = s.suspension := rfl
@[simp] theorem setTask_nextSuspension (x) :
    (s.setTask t x).nextSuspension = s.nextSuspension := rfl
@[simp] theorem setTask_call (x) : (s.setTask t x).call = s.call := rfl
@[simp] theorem setTask_transfer (x) : (s.setTask t x).transfer = s.transfer := rfl
@[simp] theorem setTask_added (x) : (s.setTask t x).added = s.added := rfl

@[simp] theorem setSuspension_proc (b) : (s.setSuspension e b).proc = s.proc := rfl
@[simp] theorem setSuspension_task (b) : (s.setSuspension e b).task = s.task := rfl
@[simp] theorem setSuspension_suspension (b) :
    (s.setSuspension e b).suspension = update s.suspension e (some b) := rfl
@[simp] theorem setSuspension_nextSuspension (b) :
    (s.setSuspension e b).nextSuspension = s.nextSuspension := rfl
@[simp] theorem setSuspension_call (b) : (s.setSuspension e b).call = s.call := rfl
@[simp] theorem setSuspension_transfer (b) : (s.setSuspension e b).transfer = s.transfer := rfl
@[simp] theorem setSuspension_added (b) : (s.setSuspension e b).added = s.added := rfl

@[simp] theorem setCall_proc (x) : (s.setCall c x).proc = s.proc := rfl
@[simp] theorem setCall_task (x) : (s.setCall c x).task = s.task := rfl
@[simp] theorem setCall_suspension (x) : (s.setCall c x).suspension = s.suspension := rfl
@[simp] theorem setCall_nextSuspension (x) :
    (s.setCall c x).nextSuspension = s.nextSuspension := rfl
@[simp] theorem setCall_call (x) : (s.setCall c x).call = update s.call c x := rfl
@[simp] theorem setCall_transfer (x) : (s.setCall c x).transfer = s.transfer := rfl
@[simp] theorem setCall_added (x) : (s.setCall c x).added = s.added := rfl

@[simp] theorem markAdded_proc (ts) : (s.markAdded ts).proc = s.proc := rfl
@[simp] theorem markAdded_task (ts) : (s.markAdded ts).task = s.task := rfl
@[simp] theorem markAdded_suspension (ts) : (s.markAdded ts).suspension = s.suspension := rfl
@[simp] theorem markAdded_nextSuspension (ts) :
    (s.markAdded ts).nextSuspension = s.nextSuspension := rfl
@[simp] theorem markAdded_call (ts) : (s.markAdded ts).call = s.call := rfl
@[simp] theorem markAdded_transfer (ts) : (s.markAdded ts).transfer = s.transfer := rfl
@[simp] theorem markAdded_added (ts) :
    (s.markAdded ts).added t = (s.added t || decide (t ∈ ts)) := rfl

end Updates

/-! ## The end of an owner -/

/-- The owner that goes away was not the last one: only the suspension changes. -/
theorem releaseOwner_of_more {s : State} {e : SuspendId} {o : Owner} {b : Suspension}
    (hb : s.suspension e = some b) (h : b.owners.erase o ≠ ∅) :
    s.releaseOwner e o = s.setSuspension e { b with owners := b.owners.erase o } := by
  simp only [State.releaseOwner, hb, if_neg h]

/-- The owner that goes away was the last one: the deleter enqueues the task. -/
theorem releaseOwner_of_last {s : State} {e : SuspendId} {o : Owner} {b : Suspension}
    (hb : s.suspension e = some b) (h : b.owners.erase o = ∅) :
    s.releaseOwner e o
      = (s.setSuspension e { b with owners := ∅, pushes := b.pushes + 1 }).modifyProc b.processor
          fun P => { P with runQue := P.runQue ++ [b.task] } := by
  simp only [State.releaseOwner, hb, if_pos h]

/-- Releasing an owner changes no processor, or appends one task to one `runQue_`. -/
theorem releaseOwner_proc (s : State) (e : SuspendId) (o : Owner) :
    (s.releaseOwner e o).proc = s.proc ∨
      ∃ b, s.suspension e = some b ∧ b.owners.erase o = ∅ ∧
        (s.releaseOwner e o).proc
          = (s.modifyProc b.processor fun P => { P with runQue := P.runQue ++ [b.task] }).proc := by
  cases hb : s.suspension e with
  | none => exact Or.inl (by simp only [State.releaseOwner, hb])
  | some b =>
    by_cases h : b.owners.erase o = ∅
    · exact Or.inr ⟨b, rfl, h, by rw [releaseOwner_of_last hb h]; rfl⟩
    · exact Or.inl (by rw [releaseOwner_of_more hb h]; rfl)

/-! ## The steps of `process()` -/

/-- The places of `process()` at which `runQue_.popFront(run)` comes next. -/
def Pc.popsRunQue (pc : Pc) : Prop := pc = .acquire ∨ pc = .retry ∨ pc = .takeNext

inductive ProcessSteps (s : State) (p : ProcId) : State → Prop
  | popFront {t rest} (hpc : (s.proc p).pc.popsRunQue) (hq : (s.proc p).runQue = t :: rest) :
      ProcessSteps s p (s.modifyProc p (·.take t rest))
  | acquireMiss (hpc : (s.proc p).pc = .acquire) (hq : (s.proc p).runQue = []) :
      ProcessSteps s p (s.modifyProc p ({ · with pc := .popNew .retry }))
  | popNew {k} (hpc : (s.proc p).pc = .popNew k) :
      ProcessSteps s p (s.modifyProc p fun P =>
        { P with inHand := P.newQue, newQue := [], pc := .pushNew k })
  | pushNew {k} (hpc : (s.proc p).pc = .pushNew k) :
      ProcessSteps s p (s.modifyProc p fun P =>
        { P with runQue := P.runQue ++ P.inHand, inHand := [], pc := k.pc })
  | retryMiss (hpc : (s.proc p).pc = .retry) (hq : (s.proc p).runQue = []) :
      ProcessSteps s p (s.modifyProc p ({ · with pc := .enterWait }))
  | skipWait (hpc : (s.proc p).pc = .enterWait) (hn : (s.proc p).notified = true) :
      ProcessSteps s p (s.modifyProc p ({ · with notified := false, pc := .popNew .acquire }))
  | wait (hpc : (s.proc p).pc = .enterWait) (hn : (s.proc p).notified = false) :
      ProcessSteps s p (s.modifyProc p ({ · with waitting := true, pc := .blocked }))
  | wakeUp (hpc : (s.proc p).pc = .woken) :
      ProcessSteps s p (s.modifyProc p ({ · with waitting := false, pc := .popNew .acquire }))
  | swapIn {t} (hpc : (s.proc p).pc = .dispatch) (ht : (s.proc p).runningTask = some t) :
      ProcessSteps s p ((s.setTask t { processor := some p, state := .running }).modifyProc p
        ({ · with pc := .running }))
  | caseRunning {t k} (hpc : (s.proc p).pc = .switching) (ht : (s.proc p).runningTask = some t)
      (hst : (s.task t).state = .running) (hk : k = .popNew .requeue ∨ k = .requeue) :
      ProcessSteps s p (s.modifyProc p ({ · with pc := k }))
  | caseBlock {t} (hpc : (s.proc p).pc = .switching) (ht : (s.proc p).runningTask = some t)
      (hst : (s.task t).state = .block) :
      ProcessSteps s p (s.modifyProc p (·.takeNextTask))
  | caseDone {t k} (hpc : (s.proc p).pc = .switching) (ht : (s.proc p).runningTask = some t)
      (hst : (s.task t).state ≠ .running ∧ (s.task t).state ≠ .block)
      (hk : k = .popNew .erase ∨ k = .erase) :
      ProcessSteps s p (s.modifyProc p ({ · with pc := k }))
  | requeue {t} (hpc : (s.proc p).pc = .requeue) (ht : (s.proc p).runningTask = some t) :
      ProcessSteps s p (s.modifyProc p fun P =>
        { P with runQue := P.runQue ++ [t], runningTask := none, pc := .takeNext })
  | takeNextMiss (hpc : (s.proc p).pc = .takeNext) (hq : (s.proc p).runQue = []) :
      ProcessSteps s p (s.modifyProc p ({ · with runningTask := none, pc := .acquire }))
  | eraseHit {t rest} (hpc : (s.proc p).pc = .erase) (hq : (s.proc p).newQue = t :: rest) :
      ProcessSteps s p (s.modifyProc p
        ({ · with newQue := rest, runningTask := some t, pc := .dispatch }))
  | eraseMiss (hpc : (s.proc p).pc = .erase) (hq : (s.proc p).newQue = []) :
      ProcessSteps s p (s.modifyProc p (·.takeNextTask))

theorem modifyProc_congr {s : State} {p : ProcId} {f g : Processor → Processor}
    (h : f (s.proc p) = g (s.proc p)) : s.modifyProc p f = s.modifyProc p g := by
  rw [State.modifyProc, State.modifyProc, h]

theorem processSteps_of_process {s s' : State} {p : ProcId} (h : s.process p = some s') :
    ProcessSteps s p s' := by
  unfold State.process at h
  dsimp only at h
  split at h
  · next hpc =>
    split at h
    · next t rest hq => cases h; exact .popFront (Or.inl hpc) hq
    · next hq => cases h; exact .acquireMiss hpc hq
  · next k hpc =>
    cases h
    exact modifyProc_congr (s := s) (p := p) (by rfl) ▸ ProcessSteps.popNew hpc
  · next k hpc => cases h; exact .pushNew hpc
  · next hpc =>
    split at h
    · next t rest hq => cases h; exact .popFront (Or.inr (Or.inl hpc)) hq
    · next hq => cases h; exact .retryMiss hpc hq
  · next hpc =>
    split at h
    · next hn => cases h; exact .skipWait hpc hn
    · next hn => cases h; exact .wait hpc (by simpa using hn)
  · cases h
  · next hpc => cases h; exact .wakeUp hpc
  · next hpc =>
    split at h
    · next t ht => cases h; exact .swapIn hpc ht
    · cases h
  · cases h
  · next hpc =>
    split at h
    · cases h
    · next t ht =>
      split at h
      · next hst =>
        cases h
        exact .caseRunning (k := if (s.proc p).runQue.isEmpty then .popNew .requeue else .requeue)
          hpc ht hst (by split <;> simp)
      · next hst => cases h; exact .caseBlock hpc ht hst
      · next h1 h2 =>
        cases h
        exact .caseDone (k := if (s.proc p).runQue.isEmpty then .popNew .erase else .erase)
          hpc ht ⟨h1, h2⟩ (by split <;> simp)
  · next hpc =>
    split at h
    · next t ht => cases h; exact .requeue hpc ht
    · cases h
  · next hpc =>
    split at h
    · next t rest hq => cases h; exact .popFront (Or.inr (Or.inr hpc)) hq
    · next hq => cases h; exact .takeNextMiss hpc hq
  · next hpc =>
    split at h
    · next t rest hq => cases h; exact .eraseHit hpc hq
    · next hq => cases h; exact .eraseMiss hpc hq

/-! ## All steps -/

/-- What `steal(n)` takes from `newQue_`, and what it leaves there. -/
def stolenNew (n : Nat) (newQue : List TaskId) : List TaskId × List TaskId :=
  if n > 0 then popBackBulk n newQue else popAll newQue

theorem stolenNew_perm (n : Nat) (newQue : List TaskId) :
    ((stolenNew n newQue).1 ++ (stolenNew n newQue).2).Perm newQue := by
  unfold stolenNew
  split
  · exact List.perm_append_comm.trans
      (List.Perm.of_eq (popBackBulk_append n newQue))
  · simp [popAll]

inductive Steps (s : State) : Act → State → Prop
  | process {p s'} (h : ProcessSteps s p s') : Steps s (.process p) s'
  | spurious {p} (hpc : (s.proc p).pc = .blocked) :
      Steps s (.spurious p) (s.modifyProc p ({ · with pc := .woken }))
  | suspend {p t q} (ht : (s.proc p).runningTask = some t) (hp : (s.task t).processor = some q)
      (hw : s.atWork p = true) (hq : (s.proc q).runningTask = some t)
      (hst : (s.task t).state = .running) : Steps s (.suspend p) (s.suspendBySelf q t)
  | yield {p} (hw : s.atWork p = true) :
      Steps s (.yield p) (s.modifyProc p ({ · with pc := .switching }))
  | finish {p t st threw} (ht : (s.proc p).runningTask = some t) (hw : s.atWork p = true)
      (hst : (s.task t).state = .running) (hend : st = .done ∨ st = .except) :
      Steps s (.finish p threw) ((s.setTask t { s.task t with state := st }).modifyProc p
        ({ · with pc := .switching }))
  | lockExpired {c e b} (hb : s.suspension e = some b) (hc : s.call c = none)
      (ho : b.owners = ∅) : Steps s (.wakeLock c e) s
  | lock {c e b} (hb : s.suspension e = some b) (hc : s.call c = none) (ho : b.owners ≠ ∅)
      (hw : ∀ p, c = .processor p → s.atWork p = true) :
      Steps s (.wakeLock c e)
        ((s.setSuspension e { b with owners := insert (.caller c) b.owners, locked := true })
          |>.setCall c (some ⟨e, .locked⟩))
  | eraseNone {c e b} (hc : s.call c = some ⟨e, .locked⟩) (hb : s.suspension e = some b)
      (hp : (s.task b.task).processor = none) :
      Steps s (.wakeErase c) (s.setCall c (some ⟨e, .returning⟩))
  | erase {c e b p stage} (hc : s.call c = some ⟨e, .locked⟩) (hb : s.suspension e = some b)
      (hp : (s.task b.task).processor = some p)
      (hstage : stage = .notifying p ∨ stage = .returning) :
      Steps s (.wakeErase c) ((s.eraseWaitSet p b.task).setCall c (some ⟨e, stage⟩))
  | notify {c e p} (hc : s.call c = some ⟨e, .notifying p⟩) :
      Steps s (.wakeNotify c)
        ((s.modifyProc p (·.notifiNewQueCondition)).setCall c (some ⟨e, .returning⟩))
  | release {c e} (hc : s.call c = some ⟨e, .returning⟩) :
      Steps s (.wakeRelease c) ((s.setCall c none).releaseOwner e (.caller c))
  | addTask {p o} (hf : s.fresh o.tasks = true) :
      Steps s (.addTask p o) ((s.modifyProc p (·.addTask o.tasks)).markAdded o.tasks)
  | rangeBegin {k p} (hr : s.range k = none) :
      Steps s (.rangeBegin k p) { s with range := update s.range k (some p) }
  | rangePush {k t p} (hr : s.range k = some p) (hf : s.fresh [t] = true) :
      Steps s (.rangePush k t)
        ((s.modifyProc p fun P => { P with newQue := P.newQue ++ [t] }).markAdded [t])
  | rangeEnd {k p} (hr : s.range k = some p) :
      Steps s (.rangeEnd k) { s with range := update s.range k none }
  | stealNew {p n x} (hs : s.stealing = none) :
      Steps s (.stealNew p n)
        { s.modifyProc p ({ · with newQue := (stolenNew n (s.proc p).newQue).2 }) with
          transfer := s.transfer ++ (stolenNew n (s.proc p).newQue).1
          stealing := x }
  | stealRun {p n} (hs : s.stealing = some (p, n)) :
      Steps s .stealRun
        { s.modifyProc p ({ · with runQue := (popBackBulk n (s.proc p).runQue).2 }) with
          transfer := s.transfer ++ (popBackBulk n (s.proc p).runQue).1
          stealing := none }
  | give {p n} (hs : s.stealing = none) :
      Steps s (.give p n)
        { s.modifyProc p (·.addTask (popFrontBulk n s.transfer).1) with
          transfer := (popFrontBulk n s.transfer).2 }

theorem steps_of_step {s s' : State} {a : Act} (h : step s a = some s') : Steps s a s' := by
  cases a with
  | process p => exact .process (processSteps_of_process h)
  | spurious p =>
    simp only [step] at h
    split at h
    · next hpc => cases h; exact .spurious hpc
    · cases h
  | suspend p =>
    simp only [step] at h
    split at h
    · next t ht =>
      split at h
      · next q hp =>
        split at h
        · next hg =>
          simp only [Bool.and_eq_true, decide_eq_true_eq] at hg
          cases h
          exact .suspend ht hp hg.1.1 hg.1.2 hg.2
        · cases h
      · cases h
    · cases h
  | yield p =>
    simp only [step] at h
    split at h
    · next hw => cases h; exact .yield hw
    · cases h
  | finish p threw =>
    simp only [step] at h
    split at h
    · next t ht =>
      split at h
      · next hg =>
        simp only [Bool.and_eq_true, decide_eq_true_eq] at hg
        cases h
        exact .finish ht hg.1 hg.2 (by cases threw <;> simp)
      · cases h
    · cases h
  | wakeLock c e =>
    simp only [step] at h
    split at h
    · next b hb =>
      split at h
      · next hg =>
        simp only [Bool.and_eq_true, Option.isNone_iff_eq_none] at hg
        split at h
        · next ho => cases h; exact .lockExpired hb hg.2 ho
        · next ho =>
          cases h
          refine .lock hb hg.2 ho fun p hcp => ?_
          subst hcp
          exact hg.1
      · cases h
    · cases h
  | wakeErase c =>
    simp only [step] at h
    split at h
    · next e hc =>
      split at h
      · next b hb =>
        split at h
        · next hp => cases h; exact .eraseNone hc hb hp
        · next p hp => cases h; exact .erase hc hb hp (by split <;> simp)
      · cases h
    · cases h
  | wakeNotify c =>
    simp only [step] at h
    split at h
    · next e p hc => cases h; exact .notify hc
    · cases h
  | wakeRelease c =>
    simp only [step] at h
    split at h
    · next e hc => cases h; exact .release hc
    · cases h
  | addTask p o =>
    simp only [step] at h
    split at h
    · next hf => cases h; exact .addTask hf
    · cases h
  | rangeBegin k p =>
    simp only [step] at h
    split at h
    · next hr => cases h; exact .rangeBegin hr
    · cases h
  | rangePush k t =>
    simp only [step] at h
    split at h
    · next p hr =>
      split at h
      · next hf => cases h; exact .rangePush hr hf
      · cases h
    · cases h
  | rangeEnd k =>
    simp only [step] at h
    split at h
    · next hr =>
      obtain ⟨p, hp⟩ := Option.isSome_iff_exists.mp hr
      cases h
      exact .rangeEnd hp
    · cases h
  | stealNew p n =>
    simp only [step] at h
    split at h
    · next hs => cases h; exact .stealNew hs
    · cases h
  | stealRun =>
    simp only [step] at h
    split at h
    · next p n hs => cases h; exact .stealRun hs
    · cases h
  | give p n =>
    simp only [step] at h
    split at h
    · next hs => cases h; exact .give hs
    · cases h

end Nemo.Coroutine
