import Nemo.Coroutine.Handshake
import Nemo.Coroutine.SuspensionStep

/-!
# First come, first served

Beside the state of the processors stands what has happened to one of them: the tasks that were added to it and
the tasks that it has swapped in, both in their order.

The tasks wait in `newQue_`, in the hands of `addNewTask`, in `runQue_` and, before the `swapIn()`, in
`runningTask_`. This is one queue as long as everybody takes from its front. When a task has ended, `process()`
takes from `newQue_` even if there are tasks in `runQue_`: the condition of `firstCome_of_not_overtakes` is that this
does not happen.
-/

namespace Nemo.Coroutine

open Function (update)
open Infra

structure Service where
  state : State := {}
  added : List TaskId := []
  swappedIn : List TaskId := []

/-- The tasks that `addTask` adds to `p`. -/
def State.addsTo (s : State) (p : ProcId) : Act → List TaskId
  | .addTask q o => if q = p then o.tasks else []
  | .rangePush k t => if s.range k = some p then [t] else []
  | .give q n => if q = p then (ConcurrentLinkedDeque.popFrontBulk n s.transfer).1 else []
  | _ => []

/-- The task that `p` swaps in. -/
def State.swapsIn (s : State) (p : ProcId) : Act → List TaskId
  | .process q => if q = p ∧ (s.proc p).pc = .dispatch then (s.proc p).runningTask.toList else []
  | _ => []

def Service.step (p : ProcId) (s : Service) (a : Act) : Option Service :=
  (Coroutine.step s.state a).map fun state =>
    { state := state
      added := s.added ++ s.state.addsTo p a
      swappedIn := s.swappedIn ++ s.state.swapsIn p a }

/-- The scheduler with what happens to `p`. -/
def serving (p : ProcId) : Lts Service Act where
  init := {}
  step := Service.step p

/-- The tasks are swapped in in the order in which they were added. -/
def Service.FirstCome (s : Service) : Prop := s.swappedIn <+: s.added

/--
The tasks of `p` run to completion and nobody steals them. The balancer may take from the other processors what
they do not run.
-/
def RunsThrough (p : ProcId) (s : State) (a : Act) : Prop :=
  StealsIdle s a ∧ match a with
    | .yield q => q ≠ p
    | .suspend q => q ≠ p
    | .stealNew q _ => q ≠ p
    | .stealRun => ∀ x ∈ s.stealing, x.1 ≠ p
    | _ => True

/-- A task is about to overtake the tasks of `runQue_`. -/
def Overtakes (p : ProcId) (s : State) (a : Act) : Prop :=
  a = .process p ∧ (s.proc p).pc = .erase ∧ (s.proc p).newQue ≠ [] ∧ (s.proc p).runQue ≠ []

instance (p : ProcId) (s : State) (a : Act) : Decidable (RunsThrough p s a) := by
  unfold RunsThrough
  cases a <;> infer_instance

instance (p : ProcId) (s : State) (a : Act) : Decidable (Overtakes p s a) :=
  inferInstanceAs (Decidable (_ ∧ _))

/-! ## The tasks that wait -/

/-- The tasks that have been added and not been swapped in. -/
def Processor.pending (P : Processor) : List TaskId :=
  (if P.pc = .dispatch then P.runningTask.toList else []) ++ P.runQue ++ P.inHand ++ P.newQue

/-- Case `RUNNING` of the `switch`. -/
def Pc.requeues : Pc → Bool
  | .requeue | .popNew .requeue | .pushNew .requeue => true
  | _ => false

/-- What a processor keeps when its tasks run to completion. -/
structure Processor.Serves (P : Processor) (task : TaskId → Task) : Prop where
  requeues : P.pc.requeues = false
  ended : P.pc = .switching → ∀ t, P.runningTask = some t → (task t).state.ended
  nextTask : P.nextTask = none

/-- No suspension comes back to `p`. -/
def State.NobodyWaits (s : State) (p : ProcId) : Prop :=
  ∀ e b, s.suspension e = some b → b.processor ≠ p

structure Service.Serves (p : ProcId) (s : Service) : Prop where
  order : s.added = s.swappedIn ++ (s.state.proc p).pending
  proc : (s.state.proc p).Serves s.state.task
  nobodyWaits : s.state.NobodyWaits p

/-! ## The steps of the processor itself -/

theorem pending_of_pc {P : Processor} (h : P.pc ≠ .dispatch) :
    P.pending = P.runQue ++ P.inHand ++ P.newQue := by
  rw [Processor.pending, if_neg h, List.nil_append]

theorem serves_of_pc {P : Processor} {task : TaskId → Task} (hrequeues : P.pc.requeues = false)
    (hpc : P.pc ≠ .switching) (hnext : P.nextTask = none) : P.Serves task :=
  ⟨hrequeues, fun h => absurd h hpc, hnext⟩

theorem swapsIn_eq_nil {s : State} {p : ProcId} (h : (s.proc p).pc ≠ .dispatch) :
    s.swapsIn p (.process p) = [] :=
  if_neg fun hboth => h hboth.2

/-- A step between two places that are neither before nor behind a `swapIn()`. -/
theorem serves_quiet {s : State} {p : ProcId} {f : Processor → Processor} (hpc : (s.proc p).pc ≠ .dispatch)
    (hpc' : (f (s.proc p)).pc ≠ .dispatch)
    (hqueues : (f (s.proc p)).runQue ++ (f (s.proc p)).inHand ++ (f (s.proc p)).newQue =
      (s.proc p).runQue ++ (s.proc p).inHand ++ (s.proc p).newQue)
    (hserves : (f (s.proc p)).Serves s.task) :
    s.swapsIn p (.process p) ++ ((s.modifyProc p f).proc p).pending = (s.proc p).pending ∧
      ((s.modifyProc p f).proc p).Serves (s.modifyProc p f).task := by
  rw [modifyProc_proc_self, swapsIn_eq_nil hpc, pending_of_pc hpc, pending_of_pc hpc', hqueues]
  exact ⟨rfl, hserves⟩

/-- `process()` takes from the front of what waits. -/
theorem serves_process {s s' : State} {p : ProcId} (hl : (s.proc p).Local) (h : (s.proc p).Serves s.task)
    (hfront : (s.proc p).pc = .erase → (s.proc p).newQue = [] ∨ (s.proc p).runQue = [])
    (hs : ProcessSteps s p s') :
    s.swapsIn p (.process p) ++ (s'.proc p).pending = (s.proc p).pending ∧ (s'.proc p).Serves s'.task := by
  cases hs with
  | @popFront t rest hpc hq =>
    have hne : (s.proc p).pc ≠ .dispatch := by
      rcases hpc with hpc | hpc | hpc <;> rw [hpc] <;> decide
    rw [modifyProc_proc_self, swapsIn_eq_nil hne, pending_of_pc hne, hq]
    exact ⟨rfl, serves_of_pc rfl nofun h.nextTask⟩
  | acquireMiss hpc hq =>
    exact serves_quiet (by rw [hpc]; decide) nofun rfl (serves_of_pc rfl nofun h.nextTask)
  | @popNew k hpc =>
    have hhand : (s.proc p).inHand = [] := hl.inHand_nil fun k' => by rw [hpc]; exact nofun
    refine serves_quiet (by rw [hpc]; exact nofun) nofun ?_ (serves_of_pc ?_ nofun h.nextTask)
    · rw [hhand, List.append_nil, List.append_nil]
    · have hrequeues := h.requeues
      rw [hpc] at hrequeues
      cases k with
      | requeue => cases hrequeues
      | _ => rfl
  | @pushNew k hpc =>
    have hrequeues := h.requeues
    rw [hpc] at hrequeues
    refine serves_quiet (by rw [hpc]; exact nofun) (by cases k <;> exact nofun) ?_ (serves_of_pc ?_ ?_ h.nextTask)
    · rw [List.append_nil]
    · cases k with
      | requeue => cases hrequeues
      | _ => rfl
    · cases k <;> exact nofun
  | retryMiss hpc hq =>
    exact serves_quiet (by rw [hpc]; decide) nofun rfl (serves_of_pc rfl nofun h.nextTask)
  | skipWait hpc hn =>
    exact serves_quiet (by rw [hpc]; decide) nofun rfl (serves_of_pc rfl nofun h.nextTask)
  | wait hpc hn =>
    exact serves_quiet (by rw [hpc]; decide) nofun rfl (serves_of_pc rfl nofun h.nextTask)
  | wakeUp hpc =>
    exact serves_quiet (by rw [hpc]; decide) nofun rfl (serves_of_pc rfl nofun h.nextTask)
  | @swapIn t hpc ht =>
    have hswaps : s.swapsIn p (.process p) = [t] := by
      rw [State.swapsIn, if_pos ⟨rfl, hpc⟩, ht]
      rfl
    have hbefore : (s.proc p).pending = [t] ++ (s.proc p).runQue ++ (s.proc p).inHand ++ (s.proc p).newQue := by
      rw [Processor.pending, if_pos hpc, ht]
      rfl
    rw [modifyProc_proc_self, hswaps, hbefore]
    exact ⟨rfl, serves_of_pc rfl nofun h.nextTask⟩
  | @caseRunning t k hpc ht hst =>
    rcases h.ended hpc t ht with hend | hend <;> rw [hend] at hst <;> cases hst
  | @caseBlock t hpc ht hst =>
    rcases h.ended hpc t ht with hend | hend <;> rw [hend] at hst <;> cases hst
  | caseDone hpc ht hst hk =>
    rcases hk with rfl | rfl
    · exact serves_quiet (by rw [hpc]; decide) nofun rfl (serves_of_pc rfl nofun h.nextTask)
    · exact serves_quiet (by rw [hpc]; decide) nofun rfl (serves_of_pc rfl nofun h.nextTask)
  | requeue hpc =>
    have hrequeues := h.requeues
    rw [hpc] at hrequeues
    cases hrequeues
  | takeNextMiss hpc hq =>
    exact serves_quiet (by rw [hpc]; decide) nofun rfl (serves_of_pc rfl nofun h.nextTask)
  | @eraseHit t rest hpc hq =>
    have hne : (s.proc p).pc ≠ .dispatch := by
      rw [hpc]
      decide
    have hrun : (s.proc p).runQue = [] := by
      rcases hfront hpc with hnew | hrun
      · cases hnew.symm.trans hq
      · exact hrun
    have hhand : (s.proc p).inHand = [] := hl.inHand_nil fun k' => by rw [hpc]; exact nofun
    rw [modifyProc_proc_self, swapsIn_eq_nil hne, pending_of_pc hne, hq]
    refine ⟨?_, serves_of_pc rfl nofun h.nextTask⟩
    rw [Processor.pending, if_pos rfl, hrun, hhand]
    rfl
  | eraseMiss hpc hq =>
    have hpc' : (s.proc p).takeNextTask.pc = .acquire := by
      rw [Processor.takeNextTask, h.nextTask]
      rfl
    refine serves_quiet (by rw [hpc]; decide) (by rw [hpc']; decide) rfl (serves_of_pc ?_ ?_ rfl) <;> rw [hpc']
    · rfl
    · decide

/-- The task that runs has ended. -/
theorem serves_finish {s : State} {p : ProcId} {t : TaskId} {st : TaskState} (h : (s.proc p).Serves s.task)
    (hw : s.atWork p = true) (ht : (s.proc p).runningTask = some t) (hend : st = .done ∨ st = .except) :
    let s' := (s.setTask t { s.task t with state := st }).modifyProc p ({ · with pc := .switching })
    (s'.proc p).pending = (s.proc p).pending ∧ (s'.proc p).Serves s'.task := by
  have hpc : (s.proc p).pc ≠ .dispatch := by
    rw [pc_of_atWork hw]
    decide
  dsimp only
  rw [modifyProc_proc_self, pending_of_pc hpc]
  refine ⟨rfl, rfl, fun _ t' ht' => ?_, h.nextTask⟩
  obtain rfl : t = t' := Option.some.inj (ht.symm.trans ht')
  show (update s.task t _ t).state.ended
  rw [Function.update_self]
  exact hend

/-! ## The steps of the others -/

/-- What others do to a processor: they add tasks, and wake it. -/
structure Processor.Receives (P : Processor) (tasks : List TaskId) (P' : Processor) : Prop where
  newQue : P'.newQue = P.newQue ++ tasks
  runQue : P'.runQue = P.runQue
  inHand : P'.inHand = P.inHand
  runningTask : P'.runningTask = P.runningTask
  nextTask : P'.nextTask = P.nextTask
  pc : P'.pc = P.pc ∨ P.pc = .blocked ∧ P'.pc = .woken

namespace Processor.Receives

variable {P P' : Processor} {tasks : List TaskId}

theorem refl (P : Processor) : P.Receives [] P :=
  ⟨(List.append_nil _).symm, rfl, rfl, rfl, rfl, .inl rfl⟩

theorem of_eq (h : P' = P) : P.Receives [] P' := h ▸ refl P

theorem push (P : Processor) (tasks : List TaskId) : P.Receives tasks { P with newQue := P.newQue ++ tasks } :=
  ⟨rfl, rfl, rfl, rfl, rfl, .inl rfl⟩

theorem notifiNewQueCondition (h : P.Receives tasks P') : P.Receives tasks P'.notifiNewQueCondition := by
  unfold Processor.notifiNewQueCondition
  split
  · refine ⟨h.newQue, h.runQue, h.inHand, h.runningTask, h.nextTask, ?_⟩
    show (if P'.pc = .blocked then Pc.woken else P'.pc) = P.pc ∨ _
    split
    · next hblocked =>
      rcases h.pc with hpc | ⟨-, hwoken⟩
      · exact .inr ⟨hpc.symm.trans hblocked, rfl⟩
      · cases hwoken.symm.trans hblocked
    · exact h.pc
  · exact ⟨h.newQue, h.runQue, h.inHand, h.runningTask, h.nextTask, h.pc⟩

theorem pending (h : P.Receives tasks P') : P'.pending = P.pending ++ tasks := by
  have hdispatch : (if P'.pc = .dispatch then P'.runningTask.toList else []) =
      if P.pc = .dispatch then P.runningTask.toList else [] := by
    rcases h.pc with hpc | ⟨hpc, hpc'⟩
    · rw [hpc, h.runningTask]
    · rw [hpc, hpc']
      rfl
  rw [Processor.pending, hdispatch, h.runQue, h.inHand, h.newQue, Processor.pending, List.append_assoc _ P.newQue]

theorem serves (h : P.Receives tasks P') {task task' : TaskId → Task} (hserves : P.Serves task)
    (htask : ∀ t, P.pc = .switching → P.runningTask = some t → (task' t).state = (task t).state) :
    P'.Serves task' := by
  rcases h.pc with hpc | ⟨hpc, hpc'⟩
  · refine ⟨hpc ▸ hserves.requeues, fun hswitch t ht => ?_, h.nextTask.trans hserves.nextTask⟩
    rw [hpc] at hswitch
    rw [h.runningTask] at ht
    rw [htask t hswitch ht]
    exact hserves.ended hswitch t ht
  · refine serves_of_pc ?_ ?_ (h.nextTask.trans hserves.nextTask) <;> rw [hpc']
    · rfl
    · decide

end Processor.Receives

section Others

variable {s s' : State} {p : ProcId}

theorem State.NobodyWaits.setSuspension (h : s.NobodyWaits p) {e : SuspendId} {b b' : Suspension}
    (hb : s.suspension e = some b) (hb' : b'.processor = b.processor) :
    (s.setSuspension e b').NobodyWaits p := by
  intro e' b'' hb''
  rw [setSuspension_suspension, Function.update_apply] at hb''
  split at hb''
  · cases hb''
    exact hb' ▸ h e b hb
  · exact h e' b'' hb''

theorem State.NobodyWaits.releaseOwner (h : s.NobodyWaits p) (e : SuspendId) (o : Owner) :
    (s.releaseOwner e o).proc p = s.proc p ∧ (s.releaseOwner e o).task = s.task ∧
      (s.releaseOwner e o).NobodyWaits p := by
  cases hb : s.suspension e with
  | none =>
    rw [State.releaseOwner, hb]
    exact ⟨rfl, rfl, h⟩
  | some b =>
    by_cases ho : b.owners.erase o = ∅
    · rw [releaseOwner_of_last hb ho]
      refine ⟨modifyProc_proc_ne _ _ (h e b hb).symm, rfl, h.setSuspension hb rfl⟩
    · rw [releaseOwner_of_more hb ho]
      exact ⟨rfl, rfl, h.setSuspension hb rfl⟩

theorem receives_modifyProc {q : ProcId} {f : Processor → Processor} {tasks : List TaskId}
    (hself : q = p → (s.proc p).Receives tasks (f (s.proc p))) (hother : q ≠ p → tasks = []) :
    (s.proc p).Receives tasks ((s.modifyProc q f).proc p) := by
  by_cases hq : q = p
  · have hproc := hself hq
    subst hq
    rwa [modifyProc_proc_self]
  · rw [modifyProc_proc_ne _ _ (Ne.symm hq), hother hq]
    exact .refl _

theorem State.NobodyWaits.eraseWaitSet (h : s.NobodyWaits p) (q : ProcId) (t : TaskId) :
    (s.proc p).Receives [] ((s.eraseWaitSet q t).proc p) ∧ (s.eraseWaitSet q t).task = s.task ∧
      (s.eraseWaitSet q t).NobodyWaits p := by
  unfold State.eraseWaitSet
  split
  · exact ⟨.refl _, rfl, h⟩
  · next e he =>
    obtain ⟨hproc, htask, hnobody⟩ := State.NobodyWaits.releaseOwner (p := p)
      (s := s.modifyProc q fun P => { P with waitSet := update P.waitSet t none }) h e .waitSet
    rw [hproc]
    refine ⟨receives_modifyProc (fun _ => ?_) fun _ => rfl, htask, hnobody⟩
    exact ⟨(List.append_nil _).symm, rfl, rfl, rfl, rfl, .inl rfl⟩

/-- The others do not touch a processor whose tasks run to completion, but to add tasks and to wake it. -/
theorem receives_step {a : Act} (ho : Owned s) (hnobody : s.NobodyWaits p) (hruns : RunsThrough p s a)
    (hs : Steps s a s') (hprocess : a ≠ .process p) (hfinish : ∀ threw, a ≠ .finish p threw) :
    (s.proc p).Receives (s.addsTo p a) (s'.proc p) ∧
      (∀ t, (s.proc p).pc = .switching → (s.proc p).runningTask = some t → (s'.task t).state = (s.task t).state) ∧
      s'.NobodyWaits p := by
  cases hs with
  | @process q _ hq =>
    have hne : p ≠ q := fun heq => hprocess (heq ▸ rfl)
    cases hq with
    | @swapIn t hpc ht =>
      refine ⟨.of_eq (modifyProc_proc_ne _ _ hne), fun t' _ ht' => ?_, hnobody⟩
      have htt : t' ≠ t := fun heq => hne (ho.runningTask_unique (heq ▸ ht') ht)
      show (update s.task t _ t').state = _
      rw [Function.update_of_ne htt]
    | _ => exact ⟨.of_eq (modifyProc_proc_ne _ _ hne), fun _ _ _ => rfl, hnobody⟩
  | @spurious q hpc =>
    refine ⟨receives_modifyProc (fun hq => ?_) fun _ => rfl, fun _ _ _ => rfl, hnobody⟩
    subst hq
    exact ⟨(List.append_nil _).symm, rfl, rfl, rfl, rfl, .inr ⟨hpc, rfl⟩⟩
  | @suspend p' t q ht hp hw hq hst =>
    obtain rfl := ho.runningTask_unique ht hq
    have hne : p' ≠ p := hruns.2
    rw [suspendBySelf_eq (ho.waitSet_none ht hst)]
    refine ⟨.of_eq (Function.update_of_ne (Ne.symm hne) _ _), fun t' _ ht' => ?_, fun e b hb => ?_⟩
    · have htt : t' ≠ t := fun heq => hne (ho.runningTask_unique ht (heq ▸ ht'))
      show (update s.task t _ t').state = _
      rw [Function.update_of_ne htt]
    · have hb' : update s.suspension s.nextSuspension _ e = some b := hb
      rw [Function.update_apply] at hb'
      split at hb'
      · cases hb'
        exact hne
      · exact hnobody e b hb'
  | @yield q hw =>
    exact ⟨.of_eq (modifyProc_proc_ne _ _ (Ne.symm hruns.2)), fun _ _ _ => rfl, hnobody⟩
  | @finish q t st threw ht hw hst hend =>
    have hne : p ≠ q := fun heq => hfinish threw (heq ▸ rfl)
    refine ⟨.of_eq (modifyProc_proc_ne _ _ hne), fun t' _ ht' => ?_, hnobody⟩
    have htt : t' ≠ t := fun heq => hne (ho.runningTask_unique (heq ▸ ht') ht)
    show (update s.task t _ t').state = _
    rw [Function.update_of_ne htt]
  | lockExpired => exact ⟨.refl _, fun _ _ _ => rfl, hnobody⟩
  | @lock c e b hb hc howners hw =>
    exact ⟨.refl _, fun _ _ _ => rfl, hnobody.setSuspension hb rfl⟩
  | eraseNone => exact ⟨.refl _, fun _ _ _ => rfl, hnobody⟩
  | @erase c e b q stage =>
    obtain ⟨hproc, htask, hnobody'⟩ := hnobody.eraseWaitSet q b.task
    exact ⟨hproc, fun t _ _ => congrArg (fun task => (task t).state) htask, hnobody'⟩
  | notify =>
    refine ⟨receives_modifyProc (fun _ => ?_) fun _ => rfl, fun _ _ _ => rfl, hnobody⟩
    exact (Processor.Receives.refl _).notifiNewQueCondition
  | @release c e hc =>
    obtain ⟨hproc, htask, hnobody'⟩ := State.NobodyWaits.releaseOwner (s := s.setCall c none) hnobody e (.caller c)
    exact ⟨.of_eq hproc, fun t _ _ => congrArg (fun task => (task t).state) htask, hnobody'⟩
  | @addTask q o hf =>
    refine ⟨receives_modifyProc (f := (·.addTask o.tasks)) (fun hq => ?_) (fun hne => if_neg hne),
      fun _ _ _ => rfl, hnobody⟩
    rw [State.addsTo, if_pos hq]
    exact (Processor.Receives.push _ _).notifiNewQueCondition
  | rangeBegin => exact ⟨.refl _, fun _ _ _ => rfl, hnobody⟩
  | @rangePush k t q hr hf =>
    have hiff : s.range k = some p ↔ q = p := by rw [hr, Option.some.injEq]
    refine ⟨receives_modifyProc (f := fun P => { P with newQue := P.newQue ++ [t] }) (fun hq => ?_) fun hne => ?_,
      fun _ _ _ => rfl, hnobody⟩
    · rw [State.addsTo, if_pos (hiff.mpr hq)]
      exact .push _ _
    · rw [State.addsTo, if_neg fun heq => hne (hiff.mp heq)]
  | rangeEnd => exact ⟨.refl _, fun _ _ _ => rfl, hnobody⟩
  | @stealNew q n x =>
    exact ⟨.of_eq (Function.update_of_ne (Ne.symm hruns.2) _ _), fun _ _ _ => rfl, hnobody⟩
  | @stealRun q n hst =>
    exact ⟨.of_eq (Function.update_of_ne (Ne.symm (hruns.2 _ hst)) _ _), fun _ _ _ => rfl, hnobody⟩
  | @give q n hst =>
    refine ⟨receives_modifyProc
      (f := (·.addTask (ConcurrentLinkedDeque.popFrontBulk n s.transfer).1)) (fun hq => ?_) (fun hne => if_neg hne),
      fun _ _ _ => rfl, hnobody⟩
    rw [State.addsTo, if_pos hq]
    exact (Processor.Receives.push _ _).notifiNewQueCondition

end Others

/-! ## Runs -/

namespace Service

variable {p : ProcId} {s s' : Service} {a : Act}

theorem serves_init (p : ProcId) : Serves p (serving p).init :=
  ⟨rfl, ⟨rfl, nofun, rfl⟩, nofun⟩

/-- What waits changes by what is swapped in and by what is added. -/
theorem Serves.step (h : Serves p s) (hl : (s.state.proc p).Local) (ho : Owned s.state)
    (hruns : RunsThrough p s.state a) (hfront : ¬ Overtakes p s.state a) (hs : s.step p a = some s') :
    Serves p s' := by
  obtain ⟨s₁, hs₁, rfl⟩ := Option.map_eq_some_iff.mp hs
  have hsteps := steps_of_step hs₁
  by_cases hprocess : a = .process p
  · subst hprocess
    cases hsteps with
    | process hq =>
      have hlast : (s.state.proc p).pc = .erase → (s.state.proc p).newQue = [] ∨ (s.state.proc p).runQue = [] := by
        intro hpc
        by_contra hboth
        rw [not_or] at hboth
        exact hfront ⟨rfl, hpc, hboth.1, hboth.2⟩
      obtain ⟨hpending, hserves⟩ := serves_process hl h.proc hlast hq
      refine ⟨?_, hserves, ?_⟩
      · show s.added ++ [] = s.swappedIn ++ s.state.swapsIn p (.process p) ++ (s₁.proc p).pending
        rw [List.append_nil, List.append_assoc, hpending]
        exact h.order
      · have hsuspension : s₁.suspension = s.state.suspension := by cases hq <;> rfl
        intro e b hb
        exact h.nobodyWaits e b (hsuspension ▸ hb)
  · have hswaps : s.state.swapsIn p a = [] := by
      cases a with
      | process q =>
        refine if_neg ?_
        rintro ⟨rfl, -⟩
        exact hprocess rfl
      | _ => rfl
    by_cases hfinish : ∃ threw, a = .finish p threw
    · obtain ⟨threw, rfl⟩ := hfinish
      cases hsteps with
      | finish ht hw _ hend =>
        obtain ⟨hpending, hserves⟩ := serves_finish h.proc hw ht hend
        refine ⟨?_, hserves, h.nobodyWaits⟩
        show s.added ++ [] = s.swappedIn ++ [] ++ _
        rw [List.append_nil, List.append_nil, hpending]
        exact h.order
    · obtain ⟨hreceives, htask, hnobody⟩ := receives_step ho h.nobodyWaits hruns hsteps hprocess
        fun threw heq => hfinish ⟨threw, heq⟩
      refine ⟨?_, hreceives.serves h.proc htask, hnobody⟩
      show s.added ++ s.state.addsTo p a = s.swappedIn ++ s.state.swapsIn p a ++ (s₁.proc p).pending
      rw [hswaps, List.append_nil, hreceives.pending, ← List.append_assoc, ← h.order]

theorem reachableBy_state {P : Service → Act → Prop} (hP : ∀ s a, P s a → RunsThrough p s.state a)
    (h : (serving p).ReachableBy P s) : scheduler.ReachableBy StealsIdle s.state := by
  induction h with
  | init => exact .init
  | step _ hp hs ih =>
    obtain ⟨s₁, hs₁, rfl⟩ := Option.map_eq_some_iff.mp hs
    exact .step ih (hP _ _ hp).1 hs₁

theorem serves_of_reachableBy
    (h : (serving p).ReachableBy (fun s a => RunsThrough p s.state a ∧ ¬ Overtakes p s.state a) s) :
    Serves p s := by
  have hstate : ∀ s, (serving p).ReachableBy (fun s a => RunsThrough p s.state a ∧ ¬ Overtakes p s.state a) s →
      (s.state.proc p).Local ∧ Owned s.state := fun s h =>
    have hr := reachableBy_state (fun _ _ hp => hp.1) h
    ⟨local_of_reachableBy hr p, owned_of_reachableBy hr⟩
  exact h.invariant_of hstate (serves_init p) fun _ _ _ hJ hI hp hs => hI.step hJ.1 hJ.2 hp.1 hp.2 hs

/--
**First come, first served**, as long as no task is taken from `newQue_` past the tasks of `runQue_`.
-/
theorem firstCome_of_not_overtakes
    (h : (serving p).ReachableBy (fun s a => RunsThrough p s.state a ∧ ¬ Overtakes p s.state a) s) :
    s.FirstCome :=
  ⟨_, (serves_of_reachableBy h).order.symm⟩

/-- A task that overtakes another one is swapped in too early. -/
theorem not_firstCome_of_overtakes
    (h : (serving p).ReachableBy (fun s a => RunsThrough p s.state a ∧ ¬ Overtakes p s.state a) s)
    (hover : Overtakes p s.state a) {s₁ s₂ : Service} (hs₁ : s.step p a = some s₁)
    (hs₂ : s₁.step p (.process p) = some s₂) : ¬ s₂.FirstCome := by
  obtain ⟨rfl, hpc, hnew, hrun⟩ := hover
  obtain ⟨t, newQue, hnew⟩ := List.exists_cons_of_ne_nil hnew
  obtain ⟨t', runQue, hrun⟩ := List.exists_cons_of_ne_nil hrun
  have howned := owned_of_reachableBy (reachableBy_state (fun _ _ hp => hp.1) h)
  have horder := (serves_of_reachableBy h).order
  have hpc' : (s.state.proc p).pc ≠ .dispatch := by
    rw [hpc]
    decide
  rw [pending_of_pc hpc', hrun] at horder
  -- the newcomer becomes the running task
  simp only [Service.step, Coroutine.step, State.process, hpc, hnew, Option.map_some, Option.some.injEq,
    State.addsTo, swapsIn_eq_nil hpc', List.append_nil] at hs₁
  subst hs₁
  simp only [Service.step, Coroutine.step, State.process, modifyProc_proc_self, Option.map_some,
    Option.some.injEq, State.addsTo, State.swapsIn, and_self, if_true, Option.toList_some, List.append_nil] at hs₂
  subst hs₂
  rintro ⟨rest, hprefix⟩
  dsimp only at hprefix
  rw [horder, List.append_assoc, List.append_cancel_left_eq] at hprefix
  obtain ⟨rfl, -⟩ := List.cons.inj hprefix
  -- but a task is in one queue only
  have hplace := howned.exclusive.unique (.proc p .newQue) (.proc p .runQue) t
    (show t ∈ (s.state.proc p).newQue from hnew ▸ List.mem_cons_self)
    (show t ∈ (s.state.proc p).runQue from hrun ▸ List.mem_cons_self)
  cases hplace

/-- Three tasks, the last one while the first one is erased. -/
def servesThree : List Act :=
  [Act.addTask 0 (.list [1, 2])] ++ processSteps 0 5 ++ [Act.finish 0 false] ++ processSteps 0 2 ++
    [Act.addTask 0 (.callback 3)] ++ processSteps 0 2 ++ [Act.finish 0 true] ++ processSteps 0 6

theorem firstCome_servesThree : ∃ s,
    (serving 0).runBy (fun s a => RunsThrough 0 s.state a ∧ ¬ Overtakes 0 s.state a) (serving 0).init
      servesThree = some s ∧ s.swappedIn = [1, 2, 3] ∧ s.FirstCome := by
  have hrun : ((serving 0).runBy (fun s a => RunsThrough 0 s.state a ∧ ¬ Overtakes 0 s.state a)
      (serving 0).init servesThree).map (fun s => s.swappedIn) = some [1, 2, 3] := by decide +kernel
  obtain ⟨s, hs, hq⟩ := Option.map_eq_some_iff.mp hrun
  exact ⟨s, hs, hq, firstCome_of_not_overtakes (.of_runBy .init hs)⟩

/-- Task 1 adds task 3 while task 2 waits. -/
def addsWhileRunning : List Act :=
  [Act.addTask 0 (.list [1, 2])] ++ processSteps 0 5 ++ [Act.addTask 0 (.callback 3), Act.finish 0 false] ++
    processSteps 0 3

/-- Task 3 comes before task 2. -/
theorem not_firstCome : ¬ ∀ s, (serving 0).ReachableBy (fun s a => RunsThrough 0 s.state a) s → s.FirstCome := by
  intro h
  have hrun : ((serving 0).runBy (fun s a => RunsThrough 0 s.state a) (serving 0).init addsWhileRunning).map
      (fun s => (s.swappedIn, s.added)) = some ([1, 3], [1, 2, 3]) := by decide +kernel
  obtain ⟨s, hs, hq⟩ := Option.map_eq_some_iff.mp hrun
  rw [Prod.mk.injEq] at hq
  have hfirst := h s (.of_runBy .init hs)
  rw [FirstCome, hq.1, hq.2] at hfirst
  exact absurd hfirst (by decide)

end Service

end Nemo.Coroutine
