import Nemo.Coroutine.Ownership

/-!
# The ownership invariant is kept

One lemma for each kind of step, then `owned_step`. The steps of `process()` only rearrange what
one processor holds (`Owned.modifyProc`), and the state of a task changes only on the processor
that runs it (`Owned.advance`).

Only `stealRun` needs a condition: it must not take from `runQue_` the task that the processor is
still running (`StealsIdle`).
-/

namespace Nemo.Coroutine

open Function (update)
open Infra

/-! ## One processor -/

theorem Processor.Suspended.pc {P : Processor} {task : TaskId → Task} {t : TaskId}
    (h : P.Suspended task t) : P.pc = .running ∨ P.pc = .switching := h.1

/-- Outside the window `nextTask_` is empty. -/
theorem Processor.Agrees.nextTask_none {P : Processor} {p : ProcId} {task : TaskId → Task}
    (h : P.Agrees p task) (hs : ∀ t, ¬ P.Suspended task t) : P.nextTask = none := by
  by_contra hn
  obtain ⟨t, ht⟩ := h.nextTask hn
  exact hs t ht

/-- The places at which `Agrees` says something about the running task. -/
def Pc.bound (pc : Pc) : Bool :=
  decide (pc ∈ [Pc.running, .switching, .erase, .popNew .erase, .pushNew .erase])

theorem not_suspended_of_pc {P : Processor} (task : TaskId → Task) (h1 : P.pc ≠ .running)
    (h2 : P.pc ≠ .switching) (t : TaskId) : ¬ P.Suspended task t :=
  fun h => h.pc.elim h1 h2

theorem not_suspended_of_bound {P : Processor} (task : TaskId → Task) (h : P.pc.bound = false)
    (t : TaskId) : ¬ P.Suspended task t := by
  rintro ⟨hpc | hpc, -⟩ <;> simp [Pc.bound, hpc] at h

theorem agrees_of_not_bound {P : Processor} {p : ProcId} {task : TaskId → Task}
    (h : P.pc.bound = false) (hn : P.nextTask = none) : P.Agrees p task where
  processor _ hpc _ := by simp [Pc.bound, hpc] at h
  running _ hpc _ := by simp [Pc.bound, hpc] at h
  switching _ hpc _ := by simp [Pc.bound, hpc] at h
  erase _ hpc _ := by rcases hpc with hpc | hpc | hpc <;> simp [Pc.bound, hpc] at h
  nextTask hne := absurd hn hne

/-- A processor that stays outside the window, or in the branch of ended tasks. -/
theorem Processor.Agrees.outside {P P' : Processor} {p : ProcId} {task : TaskId → Task}
    (h : P.Agrees p task) (hs : ∀ t, ¬ P.Suspended task t)
    (hpc : P'.pc ≠ .running ∧ P'.pc ≠ .switching)
    (he : P'.pc = .erase ∨ P'.pc = .popNew .erase ∨ P'.pc = .pushNew .erase →
      ∀ t, P'.runningTask = some t → (task t).state.ended)
    (hn : P'.nextTask = P.nextTask) : P'.Agrees p task where
  processor _ h1 _ := absurd h1 hpc.1
  running _ h1 _ := absurd h1 hpc.1
  switching _ h1 _ := absurd h1 hpc.2
  erase t h1 ht := he h1 t ht
  nextTask hne := by
    rw [hn, h.nextTask_none hs] at hne
    exact absurd rfl hne

/-- `Agrees` reads `pc`, `runningTask_` and `nextTask_` only. -/
theorem Processor.Agrees.congr {P P' : Processor} {p : ProcId} {task : TaskId → Task}
    (h : P.Agrees p task) (hpc : P'.pc = P.pc) (ht : P'.runningTask = P.runningTask)
    (hn : P'.nextTask = P.nextTask) : P'.Agrees p task where
  processor := by rw [hpc, ht]; exact h.processor
  running := by rw [hpc, ht]; exact h.running
  switching := by rw [hpc, ht]; exact h.switching
  erase := by rw [hpc, ht]; exact h.erase
  nextTask := by
    unfold Processor.Suspended
    rw [hn, hpc, ht]
    exact h.nextTask

theorem suspended_congr {P P' : Processor} {task : TaskId → Task} {t : TaskId}
    (hpc : P'.pc = P.pc) (ht : P'.runningTask = P.runningTask) :
    P'.Suspended task t ↔ P.Suspended task t := by
  unfold Processor.Suspended
  rw [hpc, ht]

/-- A processor does not see the state of a task that it does not run. -/
theorem suspended_update {P : Processor} {task : TaskId → Task} {t t' : TaskId} {x : Task}
    (h : P.runningTask ≠ some t) : P.Suspended (update task t x) t' ↔ P.Suspended task t' := by
  unfold Processor.Suspended
  by_cases htt : t' = t
  · subst htt
    simp [h]
  · rw [Function.update_of_ne htt]

theorem Processor.Agrees.update {P : Processor} {p : ProcId} {task : TaskId → Task} {t : TaskId}
    {x : Task} (h : P.Agrees p task) (hne : P.runningTask ≠ some t) :
    P.Agrees p (update task t x) := by
  have hx : ∀ t', P.runningTask = some t' → Function.update task t x t' = task t' := by
    intro t' ht'
    refine Function.update_of_ne ?_ _ _
    rintro rfl
    exact hne ht'
  refine ⟨fun t' hpc ht => ?_, fun t' hpc ht => ?_, fun t' hpc ht => ?_, fun t' hpc ht => ?_,
    fun hn => ?_⟩
  · rw [hx t' ht]; exact h.processor t' hpc ht
  · rw [hx t' ht]; exact h.running t' hpc ht
  · rw [hx t' ht]; exact h.switching t' hpc ht
  · rw [hx t' ht]; exact h.erase t' hpc ht
  · obtain ⟨t', ht'⟩ := h.nextTask hn
    exact ⟨t', (suspended_update hne).mpr ht'⟩

theorem held_update {P : Processor} {task : TaskId → Task} {t : TaskId} {x : Task}
    (h : P.runningTask ≠ some t) (i : Slot) : P.held (update task t x) i = P.held task i := by
  cases i with
  | runningTask =>
    simp only [Processor.held]
    simp only [suspended_update h]
  | newQue | runQue | inHand | nextTask => rfl

/-! ## Suspensions that a step does not touch -/

theorem SuspensionOk.congr {s s' : State} {e : SuspendId} {b : Suspension} (h : SuspensionOk s e b)
    (hw : (s'.proc b.processor).waitSet b.task = some e ↔
      (s.proc b.processor).waitSet b.task = some e)
    (hc : ∀ c st, s'.call c = some ⟨e, st⟩ ↔ s.call c = some ⟨e, st⟩)
    (hp : b.owners ≠ ∅ → (s'.task b.task).processor = (s.task b.task).processor) :
    SuspensionOk s' e b where
  taskPtr := h.taskPtr
  waitSet ho := hw.mpr (h.waitSet ho)
  caller c := by simp only [hc, h.caller c]
  locked := h.locked
  unlocked := h.unlocked
  erasing hl ho := by simpa only [hc] using h.erasing hl ho
  processor ho := by rw [hp ho]; exact h.processor ho
  pushes := h.pushes

theorem SuspensionsOk.congr {s s' : State} (h : SuspensionsOk s)
    (hs : s'.suspension = s.suspension) (hn : s'.nextSuspension = s.nextSuspension)
    (hw : ∀ p, (s'.proc p).waitSet = (s.proc p).waitSet) (hc : s'.call = s.call)
    (hp : ∀ e b, s.suspension e = some b → b.owners ≠ ∅ →
      (s'.task b.task).processor = (s.task b.task).processor) : SuspensionsOk s' where
  fresh := by rw [hs, hn]; exact h.fresh
  ok e b hb := by
    rw [hs] at hb
    exact (h.ok e b hb).congr (by rw [hw]) (by simp only [hc, implies_true]) (hp e b hb)
  waitSet := by simp only [hw, hs]; exact h.waitSet
  call := by rw [hc, hs]; exact h.call

/-- A step that changes one suspension, and nothing that the others see. -/
theorem SuspensionsOk.update {s s' : State} (h : SuspensionsOk s) {e : SuspendId} {b : Suspension}
    (hs : s'.suspension = Function.update s.suspension e (some b))
    (hn : ∀ e', s'.nextSuspension ≤ e' → e' ≠ e ∧ s.nextSuspension ≤ e')
    (hw : ∀ p t e', e' ≠ e → ((s'.proc p).waitSet t = some e' ↔ (s.proc p).waitSet t = some e'))
    (hc : ∀ c e' st, e' ≠ e → (s'.call c = some ⟨e', st⟩ ↔ s.call c = some ⟨e', st⟩))
    (hp : ∀ t, (s'.task t).processor = (s.task t).processor) (hok : SuspensionOk s' e b)
    (hwe : ∀ p t, (s'.proc p).waitSet t = some e →
      b.task = t ∧ b.processor = p ∧ .waitSet ∈ b.owners) : SuspensionsOk s' where
  fresh e' he' := by
    obtain ⟨hne, hle⟩ := hn e' he'
    rw [hs, Function.update_of_ne hne]
    exact h.fresh e' hle
  ok e' b' hb' := by
    by_cases hne : e' = e
    · subst hne
      rw [hs, Function.update_self, Option.some.injEq] at hb'
      exact hb' ▸ hok
    · rw [hs, Function.update_of_ne hne] at hb'
      exact (h.ok e' b' hb').congr (hw _ _ _ hne) (fun c st => hc c e' st hne) fun _ => hp _
  waitSet p t e' he' := by
    by_cases hne : e' = e
    · subst hne
      exact ⟨b, by rw [hs, Function.update_self], hwe p t he'⟩
    · rw [hs, Function.update_of_ne hne]
      exact h.waitSet p t e' ((hw p t e' hne).mp he')
  call c e' st hcall := by
    by_cases hne : e' = e
    · exact ⟨b, by rw [hs, hne, Function.update_self]⟩
    · rw [hs, Function.update_of_ne hne]
      exact h.call c e' st ((hc c e' st hne).mp hcall)

/-! ## Steps of one processor -/

/-- The tasks that have ended in `s`. -/
def State.Ended (s : State) (t : TaskId) : Prop := (s.task t).state.ended

theorem held_modifyProc (s : State) (p : ProcId) (f : Processor → Processor) (q : ProcId)
    (i : Slot) : (s.modifyProc p f).held (.proc q i)
      = if q = p then (f (s.proc p)).held s.task i else s.held (.proc q i) := by
  simp only [State.held, modifyProc_proc, modifyProc_task]
  split <;> rfl

/-- Moving tasks between the slots `L` of one processor. -/
theorem keeps_modifyProc {s : State} {p : ProcId} {f : Processor → Processor} (L : List Slot)
    (dropped : List TaskId) (hL : L.Nodup)
    (hrest : ∀ i, i ∉ L → (f (s.proc p)).held s.task i = (s.proc p).held s.task i)
    (hp : (L.flatMap ((f (s.proc p)).held s.task) ++ dropped).Perm
      (L.flatMap ((s.proc p).held s.task)))
    (hdead : ∀ t ∈ dropped, s.Ended t) :
    Keeps s.Ended s.held (s.modifyProc p f).held := by
  refine Keeps.of_perm (L.map (.proc p)) dropped ?_ ?_ ?_ hdead
  · exact hL.map fun i j hij => by cases hij; rfl
  · intro i hi
    cases i with
    | proc q i =>
      rw [held_modifyProc]
      split
      · next hq =>
        subst hq
        exact hrest i fun hiL => hi (List.mem_map_of_mem hiL)
      · rfl
    | suspension e => rfl
    | transfer => rfl
  · rw [List.flatMap_map, List.flatMap_map]
    simpa only [State.held, modifyProc_proc_self, modifyProc_task] using hp

/-- A step that changes one processor. The task that the processor runs stays on its `runQue_`, if
it is there, until the processor has left the window. -/
theorem Owned.of_proc {s s' : State} (h : Owned s) {p : ProcId} {f : Processor → Processor}
    (hex : Exclusive s'.held) (hadd : ∀ t, Held s'.held t → s'.added t = true)
    (hheld : ∀ t, s'.added t = true → ¬ s'.Ended t → Held s'.held t)
    (hproc : s'.proc = (s.modifyProc p f).proc)
    (htask : s'.task = s.task) (hsu : s'.suspension = s.suspension)
    (hnext : s'.nextSuspension = s.nextSuspension) (hcall : s'.call = s.call)
    (hw : (f (s.proc p)).waitSet = (s.proc p).waitSet)
    (hag : (f (s.proc p)).Agrees p s.task)
    (hret : ∀ t, (f (s.proc p)).Suspended s.task t → (s.proc p).Suspended s.task t ∧
      (t ∈ (s.proc p).runQue → t ∈ (f (s.proc p)).runQue)) : Owned s' := by
  refine ⟨hex, hadd, hheld, ?_, ?_, ?_⟩
  · intro q
    rw [hproc, htask, modifyProc_proc]
    split
    · next hq => rw [hq]; exact hag
    · exact h.agrees q
  · intro q t hs
    unfold State.Returns
    rw [hproc, htask, modifyProc_proc] at hs
    rw [hproc, hsu]
    by_cases hq : q = p
    · subst hq
      rw [if_pos rfl] at hs
      obtain ⟨hs, hrun⟩ := hret t hs
      rcases h.returns q t hs with hr | hr
      · exact Or.inl (by rw [modifyProc_proc_self]; exact hrun hr)
      · exact Or.inr hr
    · rw [if_neg hq] at hs
      rw [modifyProc_proc_ne _ _ hq]
      exact h.returns q t hs
  · refine h.suspensions.congr hsu hnext (fun q => ?_) hcall fun e b _ _ => by rw [htask]
    rw [hproc, modifyProc_proc]
    split
    · next hq => rw [hq]; exact hw
    · rfl

/-- A rearrangement when no task changes its state. -/
theorem Owned.of_keeps {s s' : State} (h : Owned s) (hkeep : Keeps s.Ended s.held s'.held)
    (htask : s'.task = s.task) (hadd : s'.added = s.added) : Exclusive s'.held ∧
      (∀ t, Held s'.held t → s'.added t = true) ∧
      ∀ t, s'.added t = true → ¬ s'.Ended t → Held s'.held t := by
  refine ⟨hkeep.exclusive h.exclusive, fun t ht => ?_, fun t ht hne => ?_⟩
  · rw [hadd]
    exact h.added t (hkeep.old t ht)
  · unfold State.Ended at hne
    rw [htask] at hne
    rw [hadd] at ht
    exact hkeep.kept t hne (h.held t ht hne)

/-- **The rule for steps of one processor** that move tasks between its slots `L`. -/
theorem Owned.modifyProc {s : State} (h : Owned s) {p : ProcId} {f : Processor → Processor}
    (L : List Slot) (dropped : List TaskId) (hL : L.Nodup)
    (hrest : ∀ i, i ∉ L → (f (s.proc p)).held s.task i = (s.proc p).held s.task i)
    (hp : (L.flatMap ((f (s.proc p)).held s.task) ++ dropped).Perm
      (L.flatMap ((s.proc p).held s.task)))
    (hdead : ∀ t ∈ dropped, s.Ended t)
    (hw : (f (s.proc p)).waitSet = (s.proc p).waitSet)
    (hag : (f (s.proc p)).Agrees p s.task)
    (hret : ∀ t, (f (s.proc p)).Suspended s.task t → (s.proc p).Suspended s.task t ∧
      (t ∈ (s.proc p).runQue → t ∈ (f (s.proc p)).runQue)) :
    Owned (s.modifyProc p f) := by
  obtain ⟨h1, h2, h3⟩ := h.of_keeps (keeps_modifyProc L dropped hL hrest hp hdead) rfl rfl
  exact h.of_proc h1 h2 h3 rfl rfl rfl rfl rfl hw hag hret

/-- Moving tasks between one slot of a processor and the hands of the balancer. -/
theorem Owned.transfer {s : State} (h : Owned s) {p : ProcId} {f : Processor → Processor}
    {i : Slot} {tr : List TaskId} {st : Option (ProcId × Nat)}
    (hrest : ∀ j, j ≠ i → (f (s.proc p)).held s.task j = (s.proc p).held s.task j)
    (hp : (tr ++ (f (s.proc p)).held s.task i).Perm
      (s.transfer ++ (s.proc p).held s.task i))
    (hw : (f (s.proc p)).waitSet = (s.proc p).waitSet)
    (hag : (f (s.proc p)).Agrees p s.task)
    (hret : ∀ t, (f (s.proc p)).Suspended s.task t → (s.proc p).Suspended s.task t ∧
      (t ∈ (s.proc p).runQue → t ∈ (f (s.proc p)).runQue)) :
    Owned { s.modifyProc p f with transfer := tr, stealing := st } := by
  have hproc : ∀ q j, ({ s.modifyProc p f with transfer := tr, stealing := st } : State).held
      (.proc q j) = (s.modifyProc p f).held (.proc q j) := fun _ _ => rfl
  have hkeep : Keeps s.Ended s.held
      ({ s.modifyProc p f with transfer := tr, stealing := st } : State).held := by
    refine Keeps.of_perm [.transfer, .proc p i] [] (by simp) ?_ ?_ (by simp)
    · intro k hk
      cases k with
      | proc q j =>
        rw [hproc, held_modifyProc]
        split
        · next hq =>
          subst hq
          exact hrest j fun hj => hk (by simp [hj])
        · rfl
      | suspension e => rfl
      | transfer => simp at hk
    · simp only [List.flatMap_cons, List.flatMap_nil, List.append_nil, hproc, held_modifyProc,
        if_pos]
      exact hp
  obtain ⟨h1, h2, h3⟩ := h.of_keeps hkeep rfl rfl
  exact h.of_proc h1 h2 h3 rfl rfl rfl rfl rfl hw hag hret

/-- A change of `pc` and of the flags outside the window. -/
theorem Owned.modifyProc_idle {s : State} (h : Owned s) {p : ProcId} {f : Processor → Processor}
    (hq : (f (s.proc p)).newQue = (s.proc p).newQue ∧ (f (s.proc p)).runQue = (s.proc p).runQue ∧
      (f (s.proc p)).inHand = (s.proc p).inHand ∧
      (f (s.proc p)).runningTask = (s.proc p).runningTask ∧
      (f (s.proc p)).nextTask = (s.proc p).nextTask ∧
      (f (s.proc p)).waitSet = (s.proc p).waitSet)
    (hs : ∀ t, ¬ (s.proc p).Suspended s.task t)
    (hs' : ∀ t, ¬ (f (s.proc p)).Suspended s.task t)
    (hag : (f (s.proc p)).Agrees p s.task) : Owned (s.modifyProc p f) := by
  obtain ⟨h1, h2, h3, h4, h5, h6⟩ := hq
  refine h.modifyProc [] [] List.nodup_nil (fun i _ => ?_) (List.Perm.refl _) (by simp) h6 hag
    fun t ht => absurd ht (hs' t)
  cases i <;> simp [Processor.held, h1, h2, h3, h4, h5, hs, hs']

/-! ## `process()` -/

/-- Outside the inner loop a processor owns nothing through `runningTask_`. -/
theorem Processor.Local.runningTask_none {P : Processor} (h : P.Local) (hpc : P.pc.inner = false) :
    P.runningTask = none := by
  have hr := h.runningSet
  unfold Processor.RunningSet at hr
  rw [hpc] at hr
  simpa using hr

theorem Processor.Local.inHand_nil {P : Processor} (h : P.Local) (hpc : ∀ k, P.pc ≠ .pushNew k) :
    P.inHand = [] := by
  by_contra hne
  obtain ⟨k, hk⟩ := h.inHand hne
  exact hpc k hk

theorem popsRunQue_inner {pc : Pc} (h : pc.popsRunQue) : pc.inner = false ∧ pc.bound = false := by
  rcases h with rfl | rfl | rfl <;> exact ⟨rfl, rfl⟩

/-- The two queue pops that make a task the running task. -/
theorem owned_popFront {s : State} (h : Owned s) {p : ProcId} (hl : (s.proc p).Local) {t rest}
    (hpc : (s.proc p).pc.popsRunQue) (hq : (s.proc p).runQue = t :: rest) :
    Owned (s.modifyProc p (·.take t rest)) := by
  obtain ⟨hin, hb⟩ := popsRunQue_inner hpc
  have hnone := hl.runningTask_none hin
  have hnext := (h.agrees p).nextTask_none (not_suspended_of_bound _ hb)
  refine h.modifyProc [.runQue, .runningTask] [] (by decide) ?_ ?_ (by simp) rfl ?_ ?_
  · intro i hi
    cases i <;> simp_all [Processor.held, Processor.take]
  · simp [Processor.held, Processor.take, Processor.Suspended, hnone, hq]
  · exact agrees_of_not_bound rfl hnext
  · exact fun t' hs => absurd hs (not_suspended_of_bound _ rfl t')

theorem owned_eraseHit {s : State} (h : Owned s) {p : ProcId} {t rest}
    (hpc : (s.proc p).pc = .erase) (hq : (s.proc p).newQue = t :: rest) :
    Owned (s.modifyProc p
      ({ · with newQue := rest, runningTask := some t, pc := .dispatch })) := by
  have hs : ∀ t', ¬ (s.proc p).Suspended s.task t' :=
    not_suspended_of_pc _ (by simp [hpc]) (by simp [hpc])
  have hnext := (h.agrees p).nextTask_none hs
  refine h.modifyProc [.newQue, .runningTask] (s.proc p).runningTask.toList (by decide) ?_ ?_ ?_
    rfl ?_ ?_
  · intro i hi
    cases i <;> simp_all [Processor.held]
  · have hd : (s.proc p).held s.task .runningTask = (s.proc p).runningTask.toList := by
      simp [Processor.held, hs]
    simp only [List.flatMap_cons, List.flatMap_nil, hd]
    simp only [Processor.held, Processor.Suspended, hq]
    rw [List.perm_iff_count]
    intro a
    simp [List.count_cons]
    omega
  · intro t' ht'
    exact (h.agrees p).erase t' (Or.inl hpc) (by simpa using ht')
  · exact agrees_of_not_bound rfl hnext
  · exact fun t' hs' => absurd hs' (not_suspended_of_bound _ rfl t')

/-- `runningTask_ = std::move(nextTask_)` when the running task is not owned any more. -/
theorem owned_takeNextTask {s : State} (h : Owned s) {p : ProcId}
    (hdead : ∀ t, (s.proc p).runningTask = some t → ¬ (s.proc p).Suspended s.task t → s.Ended t) :
    Owned (s.modifyProc p (·.takeNextTask)) := by
  have hs' : ∀ t, ¬ (s.proc p).takeNextTask.Suspended s.task t := by
    refine not_suspended_of_pc _ ?_ ?_ <;> simp only [Processor.takeNextTask] <;> split <;> simp
  refine h.modifyProc [.runningTask, .nextTask] ((s.proc p).held s.task .runningTask) (by decide)
    ?_ ?_ ?_ rfl ?_ ?_
  · intro i hi
    cases i <;> simp_all [Processor.held, Processor.takeNextTask]
  · have hd : (s.proc p).takeNextTask.held s.task .runningTask = (s.proc p).nextTask.toList := by
      simp only [Processor.held, hs', not_false_eq_true, decide_true, List.filter_true]
      rfl
    simp only [List.flatMap_cons, List.flatMap_nil, hd]
    rw [List.perm_iff_count]
    intro a
    simp [Processor.held, Processor.takeNextTask]
    omega
  · intro t ht
    simp only [Processor.held, List.mem_filter, Option.mem_toList, decide_eq_true_eq] at ht
    exact hdead t ht.1 ht.2
  · refine agrees_of_not_bound ?_ rfl
    simp only [Processor.takeNextTask]
    split <;> rfl
  · exact fun t ht => absurd ht (hs' t)

/-- A task that runs and is not suspended changes its state, and its processor goes on with it. -/
theorem Owned.advance {s : State} (h : Owned s) {p : ProcId} {t : TaskId} {x : Task} {pc : Pc}
    (ht : (s.proc p).runningTask = some t) (hs : ¬ (s.proc p).Suspended s.task t)
    (hx : x.state ≠ .block)
    (hag : { s.proc p with pc := pc }.Agrees p (update s.task t x)) :
    Owned ((s.setTask t x).modifyProc p ({ · with pc := pc })) := by
  have hne : ∀ q, q ≠ p → (s.proc q).runningTask ≠ some t := fun q hq hqt =>
    hq (h.runningTask_unique hqt ht)
  have hs' : ∀ t', ¬ ({ s.proc p with pc := pc } : Processor).Suspended (update s.task t x) t' := by
    rintro t' ⟨-, ht', hst⟩
    obtain rfl : t = t' := Option.some.inj (ht.symm.trans ht')
    rw [Function.update_self] at hst
    exact hx hst
  have hheld : ((s.setTask t x).modifyProc p ({ · with pc := pc })).held = s.held := by
    funext i
    cases i with
    | suspension e => rfl
    | transfer => rfl
    | proc q i =>
      rw [held_modifyProc]
      split
      · next hq =>
        subst hq
        cases i with
        | runningTask =>
          exact (held_runningTask_of_not_suspended (P := { s.proc q with pc := pc }) ht (hs' t)).trans
            (held_runningTask_of_not_suspended ht hs).symm
        | newQue | runQue | inHand | nextTask => rfl
      · next hq => exact held_update (hne q hq) i
  have hproc : ∀ e b, s.suspension e = some b → b.owners ≠ ∅ → b.task ≠ t := by
    intro e b hb ho hbt
    refine h.not_mem_of_running ht hs (i := .suspension e) (by simp) ?_
    rw [held_suspension hb ho, hbt]
    exact List.mem_singleton.mpr rfl
  refine ⟨hheld ▸ h.exclusive, fun t' ht' => ?_, fun t' ht' hend => ?_, ?_, ?_, ?_⟩
  · rw [hheld] at ht'
    exact h.added t' ht'
  · rw [hheld]
    by_cases htt : t' = t
    · refine ⟨.proc p .runningTask, ?_⟩
      show t' ∈ (s.proc p).held s.task .runningTask
      rw [held_runningTask_of_not_suspended ht hs, htt]
      exact List.mem_singleton.mpr rfl
    · rw [modifyProc_task, setTask_task, Function.update_of_ne htt] at hend
      exact h.held t' ht' hend
  · intro q
    rw [modifyProc_proc]
    split
    · next hq => rw [hq]; exact hag
    · next hq => exact (h.agrees q).update (hne q hq)
  · intro q t' hsq
    rw [modifyProc_proc] at hsq
    by_cases hq : q = p
    · rw [if_pos hq] at hsq
      exact absurd hsq (hs' t')
    · rw [if_neg hq] at hsq
      have hr := h.returns q t' ((suspended_update (hne q hq)).mp hsq)
      unfold State.Returns at hr ⊢
      rw [modifyProc_proc_ne _ _ hq]
      exact hr
  · refine h.suspensions.congr rfl rfl (fun q => ?_) rfl fun e b hb ho => ?_
    · rw [modifyProc_proc]
      split
      · next hq => rw [hq]; rfl
      · rfl
    · rw [modifyProc_task, setTask_task, Function.update_of_ne (hproc e b hb ho)]

/-- A processor that leaves `runningTask_` unsuspended has an empty `nextTask_`. -/
theorem Processor.Agrees.nextTask_none_of_running {P : Processor} {p : ProcId}
    {task : TaskId → Task} (h : P.Agrees p task) {t : TaskId} (ht : P.runningTask = some t)
    (hst : (task t).state ≠ .block) : P.nextTask = none := by
  refine h.nextTask_none ?_
  rintro t' ⟨-, ht', hs⟩
  obtain rfl : t = t' := Option.some.inj (ht.symm.trans ht')
  exact hst hs

theorem owned_popNew {s : State} (h : Owned s) {p : ProcId} (hl : (s.proc p).Local) {k}
    (hpc : (s.proc p).pc = .popNew k) :
    Owned (s.modifyProc p fun P => { P with inHand := P.newQue, newQue := [], pc := .pushNew k }) := by
  have hs : ∀ t, ¬ (s.proc p).Suspended s.task t :=
    not_suspended_of_pc _ (by simp [hpc]) (by simp [hpc])
  have hs' := not_suspended_of_pc s.task
    (P := { s.proc p with inHand := (s.proc p).newQue, newQue := [], pc := .pushNew k })
    (by simp) (by simp)
  refine h.modifyProc [.newQue, .inHand] [] (by decide) ?_ ?_ (by simp) rfl ?_ ?_
  · intro i hi
    cases i <;> simp_all [Processor.held]
  · simp [Processor.held, hl.inHand_nil (by simp [hpc])]
  · refine (h.agrees p).outside hs (by simp) (fun he t ht => ?_) rfl
    exact (h.agrees p).erase t (by simpa [hpc] using he) ht
  · exact fun t ht => absurd ht (hs' t)

theorem owned_pushNew {s : State} (h : Owned s) {p : ProcId} {k}
    (hpc : (s.proc p).pc = .pushNew k) :
    Owned (s.modifyProc p fun P =>
      { P with runQue := P.runQue ++ P.inHand, inHand := [], pc := k.pc }) := by
  have hs : ∀ t, ¬ (s.proc p).Suspended s.task t :=
    not_suspended_of_pc _ (by simp [hpc]) (by simp [hpc])
  have hk : k.pc ≠ .running ∧ k.pc ≠ .switching := by cases k <;> simp [AfterAdd.pc]
  have hs' := not_suspended_of_pc s.task
    (P := { s.proc p with
      runQue := (s.proc p).runQue ++ (s.proc p).inHand, inHand := [], pc := k.pc }) hk.1 hk.2
  refine h.modifyProc [.runQue, .inHand] [] (by decide) ?_ ?_ (by simp) rfl ?_ ?_
  · intro i hi
    cases i <;> simp_all [Processor.held]
  · simp [Processor.held]
  · refine (h.agrees p).outside hs hk (fun he t ht => (h.agrees p).erase t ?_ ht) rfl
    cases k <;> simp_all [AfterAdd.pc]
  · exact fun t ht => absurd ht (hs' t)

/-- `runQue_.emplaceBack(std::move(runningTask_))`. -/
theorem owned_requeue {s : State} (h : Owned s) {p : ProcId} {t}
    (hpc : (s.proc p).pc = .requeue) (ht : (s.proc p).runningTask = some t) :
    Owned (s.modifyProc p fun P =>
      { P with runQue := P.runQue ++ [t], runningTask := none, pc := .takeNext }) := by
  have hs := not_suspended_of_bound (P := s.proc p) s.task (by rw [hpc]; rfl)
  refine h.modifyProc [.runQue, .runningTask] [] (by decide) ?_ ?_ (by simp) rfl ?_ ?_
  · intro i hi
    cases i <;> simp_all [Processor.held]
  · simp [Processor.held, ht, hs]
  · exact agrees_of_not_bound rfl ((h.agrees p).nextTask_none hs)
  · exact fun t' ht' => absurd ht' (not_suspended_of_bound _ rfl t')

/-- The `switch` after `swapIn()` when the task has not been suspended. -/
theorem owned_switch {s : State} (h : Owned s) {p : ProcId} {t k}
    (ht : (s.proc p).runningTask = some t) (hst : (s.task t).state ≠ .block)
    (hk : k ≠ .running ∧ k ≠ .switching)
    (he : k = .erase ∨ k = .popNew .erase ∨ k = .pushNew .erase → (s.task t).state.ended) :
    Owned (s.modifyProc p ({ · with pc := k })) := by
  have hs : ∀ t', ¬ (s.proc p).Suspended s.task t' := by
    rintro t' ⟨-, ht', hb⟩
    obtain rfl : t = t' := Option.some.inj (ht.symm.trans ht')
    exact hst hb
  refine h.modifyProc_idle (by simp) hs (not_suspended_of_pc _ hk.1 hk.2) ?_
  refine (h.agrees p).outside hs hk (fun hk' t' ht' => ?_) rfl
  obtain rfl : t = t' := Option.some.inj (ht.symm.trans ht')
  exact he hk'

theorem owned_process {s s' : State} (h : Owned s) {p : ProcId} (hl : (s.proc p).Local)
    (hs : ProcessSteps s p s') : Owned s' := by
  have hagp := h.agrees p
  -- the steps that only go on to another place outside the window
  have idle : ∀ {f : Processor → Processor}, (s.proc p).pc.bound = false →
      (f (s.proc p)).pc.bound = false →
      ((f (s.proc p)).newQue = (s.proc p).newQue ∧ (f (s.proc p)).runQue = (s.proc p).runQue ∧
        (f (s.proc p)).inHand = (s.proc p).inHand ∧
        (f (s.proc p)).runningTask = (s.proc p).runningTask ∧
        (f (s.proc p)).nextTask = (s.proc p).nextTask ∧
        (f (s.proc p)).waitSet = (s.proc p).waitSet) → Owned (s.modifyProc p f) := by
    intro f hb hb' hq
    have hns := not_suspended_of_bound s.task hb
    refine h.modifyProc_idle hq hns (not_suspended_of_bound _ hb') (agrees_of_not_bound hb' ?_)
    rw [hq.2.2.2.2.1]
    exact hagp.nextTask_none hns
  cases hs with
  | popFront hpc hq => exact owned_popFront h hl hpc hq
  | acquireMiss hpc => exact idle (by rw [hpc]; rfl) rfl (by simp)
  | popNew hpc => exact owned_popNew h hl hpc
  | pushNew hpc => exact owned_pushNew h hpc
  | retryMiss hpc => exact idle (by rw [hpc]; rfl) rfl (by simp)
  | skipWait hpc => exact idle (by rw [hpc]; rfl) rfl (by simp)
  | wait hpc => exact idle (by rw [hpc]; rfl) rfl (by simp)
  | wakeUp hpc => exact idle (by rw [hpc]; rfl) rfl (by simp)
  | @swapIn t hpc ht =>
    have hns := not_suspended_of_bound (P := s.proc p) s.task (by rw [hpc]; rfl)
    refine h.advance ht (hns t) (by simp) ?_
    have htt : ∀ t', (s.proc p).runningTask = some t' → t' = t := fun t' ht' =>
      Option.some.inj (ht'.symm.trans ht)
    refine ⟨fun t' _ ht' => ?_, fun t' _ ht' => Or.inl ?_, fun t' hpc' => by simp at hpc',
      fun t' hpc' => by simp at hpc', fun hne => absurd (hagp.nextTask_none hns) hne⟩
    · rw [htt t' ht', Function.update_self]
    · rw [htt t' ht', Function.update_self]
  | caseRunning hpc ht hst hk =>
    refine owned_switch h ht (by simp [hst]) ?_ ?_ <;> rcases hk with rfl | rfl <;> simp
  | @caseBlock t hpc ht hst =>
    refine owned_takeNextTask h fun t' ht' hns => ?_
    obtain rfl : t = t' := Option.some.inj (ht.symm.trans ht')
    exact absurd ⟨Or.inr hpc, ht, hst⟩ hns
  | caseDone hpc ht hst hk =>
    have hend := ((hagp.switching _ hpc ht).resolve_left hst.1).resolve_left hst.2
    refine owned_switch h ht hst.2 ?_ fun _ => hend
    rcases hk with rfl | rfl <;> simp
  | requeue hpc ht => exact owned_requeue h hpc ht
  | takeNextMiss hpc =>
    have hnone := hl.runningTask_none (by rw [hpc]; rfl)
    exact idle (by rw [hpc]; rfl) rfl (by simp [hnone])
  | eraseHit hpc hq => exact owned_eraseHit h hpc hq
  | eraseMiss hpc hq =>
    exact owned_takeNextTask h fun t ht _ => hagp.erase t (Or.inl hpc) ht

/-! ## `Yield` and the end of a task -/

theorem owned_yield {s : State} (h : Owned s) {p : ProcId} (hpc : (s.proc p).pc = .running) :
    Owned (s.modifyProc p ({ · with pc := .switching })) := by
  have hsw : ∀ t, ({ s.proc p with pc := .switching } : Processor).Suspended s.task t ↔
      (s.proc p).Suspended s.task t := by
    intro t
    simp [Processor.Suspended, hpc]
  have hagp := h.agrees p
  refine h.modifyProc [] [] List.nodup_nil (fun i _ => ?_) (List.Perm.refl _) (by simp) rfl ?_ ?_
  · cases i with
    | runningTask => simp only [Processor.held, hsw]
    | newQue | runQue | inHand | nextTask => rfl
  · refine ⟨fun t h1 => by simp at h1, fun t h1 => by simp at h1, fun t _ ht => ?_,
      fun t h1 => by simp at h1, fun hne => ?_⟩
    · rcases hagp.running t hpc ht with hst | hst
      · exact Or.inl hst
      · exact Or.inr (Or.inl hst)
    · obtain ⟨t, ht⟩ := hagp.nextTask hne
      exact ⟨t, (hsw t).mpr ht⟩
  · exact fun t ht => ⟨(hsw t).mp ht, id⟩

theorem owned_finish {s : State} (h : Owned s) {p : ProcId} {t : TaskId} {st : TaskState}
    (ht : (s.proc p).runningTask = some t) (hst : (s.task t).state = .running)
    (hend : st = .done ∨ st = .except) :
    Owned ((s.setTask t { s.task t with state := st }).modifyProc p
      ({ · with pc := .switching })) := by
  have hs : ¬ (s.proc p).Suspended s.task t := by
    rintro ⟨-, -, hb⟩
    rw [hst] at hb
    cases hb
  refine h.advance ht hs (by rcases hend with rfl | rfl <;> simp) ?_
  refine ⟨fun t' h1 => by simp at h1, fun t' h1 => by simp at h1, fun t' _ ht' => ?_,
    fun t' h1 => by simp at h1, fun hne => ?_⟩
  · obtain rfl : t = t' := Option.some.inj (ht.symm.trans ht')
    rw [Function.update_self]
    rcases hend with rfl | rfl <;> simp [TaskState.ended]
  · have hnone := (h.agrees p).nextTask_none_of_running ht (by simp [hst])
    exact absurd hnone hne

/-! ## Notifications and queues -/

theorem notifiNewQueCondition_pc (P : Processor) : P.notifiNewQueCondition.pc = P.pc ∨
    (P.pc = .blocked ∧ P.notifiNewQueCondition.pc = .woken) := by
  unfold Processor.notifiNewQueCondition
  split
  · dsimp only
    split
    · next hpc => exact Or.inr ⟨hpc, rfl⟩
    · exact Or.inl rfl
  · exact Or.inl rfl

theorem notifiNewQueCondition_rest (P : Processor) :
    P.notifiNewQueCondition.inHand = P.inHand ∧
      P.notifiNewQueCondition.runningTask = P.runningTask ∧
      P.notifiNewQueCondition.nextTask = P.nextTask ∧
      P.notifiNewQueCondition.waitSet = P.waitSet := by
  unfold Processor.notifiNewQueCondition
  split <;> exact ⟨rfl, rfl, rfl, rfl⟩

theorem suspended_notifiNewQueCondition {P : Processor} {task : TaskId → Task} {t : TaskId} :
    P.notifiNewQueCondition.Suspended task t ↔ P.Suspended task t := by
  rcases notifiNewQueCondition_pc P with hpc | ⟨hpc, hpc'⟩
  · exact suspended_congr hpc (notifiNewQueCondition_rest P).2.1
  · simp [Processor.Suspended, hpc, hpc']

theorem held_notifiNewQueCondition (P : Processor) (task : TaskId → Task) (i : Slot) :
    P.notifiNewQueCondition.held task i = P.held task i := by
  obtain ⟨h1, h2, h3, -⟩ := notifiNewQueCondition_rest P
  cases i with
  | runningTask => simp only [Processor.held, suspended_notifiNewQueCondition, h2]
  | newQue => simp [Processor.held]
  | runQue => simp [Processor.held]
  | inHand => simp only [Processor.held, h1]
  | nextTask => simp only [Processor.held, h3]

theorem Processor.Agrees.notifiNewQueCondition {P : Processor} {p : ProcId}
    {task : TaskId → Task} (h : P.Agrees p task) : P.notifiNewQueCondition.Agrees p task := by
  obtain ⟨-, h2, h3, -⟩ := notifiNewQueCondition_rest P
  rcases notifiNewQueCondition_pc P with hpc | ⟨hpc, hpc'⟩
  · exact h.congr hpc h2 h3
  · refine agrees_of_not_bound (by rw [hpc']; rfl) ?_
    rw [h3]
    exact h.nextTask_none (not_suspended_of_bound _ (by rw [hpc]; rfl))

theorem owned_notify {s : State} (h : Owned s) (p : ProcId) :
    Owned (s.modifyProc p (·.notifiNewQueCondition)) := by
  refine h.modifyProc [] [] List.nodup_nil (fun i _ => held_notifiNewQueCondition _ _ i)
    (List.Perm.refl _) (by simp) (notifiNewQueCondition_rest _).2.2.2
    (h.agrees p).notifiNewQueCondition fun t ht => ⟨suspended_notifiNewQueCondition.mp ht, ?_⟩
  rw [notifiNewQueCondition_runQue]
  exact id

/-- New tasks arrive at the end of a `newQue_`. -/
theorem owned_push {s : State} (h : Owned s) (p : ProcId) {ts : List TaskId}
    (hf : s.fresh ts = true) :
    Owned ((s.modifyProc p fun P => { P with newQue := P.newQue ++ ts }).markAdded ts) := by
  simp only [State.fresh, Bool.and_eq_true, decide_eq_true_eq, List.all_eq_true,
    Bool.not_eq_true'] at hf
  obtain ⟨hnd, hnew⟩ := hf
  have hproc : ∀ q i, ((s.modifyProc p fun P =>
      { P with newQue := P.newQue ++ ts }).markAdded ts).held (.proc q i)
        = (s.modifyProc p fun P => { P with newQue := P.newQue ++ ts }).held (.proc q i) :=
    fun _ _ => rfl
  have hother : ∀ i, i ≠ .proc p .newQue →
      ((s.modifyProc p fun P => { P with newQue := P.newQue ++ ts }).markAdded ts).held i
        = s.held i := by
    intro i hi
    cases i with
    | proc q i =>
      rw [hproc, held_modifyProc]
      split
      · next hq =>
        subst hq
        cases i with
        | newQue => exact absurd rfl hi
        | runQue | inHand | runningTask | nextTask => rfl
      · rfl
    | suspension e => rfl
    | transfer => rfl
  have hself : ((s.modifyProc p fun P => { P with newQue := P.newQue ++ ts }).markAdded ts).held
      (.proc p .newQue) = s.held (.proc p .newQue) ++ ts := by
    simp [State.held, Processor.held]
  have hnot : ∀ t ∈ ts, ¬ Held s.held t := by
    intro t ht hh
    have hadd := h.added t hh
    rw [hnew t ht] at hadd
    cases hadd
  refine h.of_proc (p := p) (f := fun P => { P with newQue := P.newQue ++ ts }) ?_ ?_ ?_
    rfl rfl rfl rfl rfl rfl ?_ ?_
  · exact h.exclusive.of_add hother hself hnd hnot
  · intro t ht
    rw [markAdded_added, modifyProc_added, Bool.or_eq_true, decide_eq_true_eq]
    exact ((held_of_add hother hself t).mp ht).imp (h.added t) id
  · intro t ht hne
    rw [markAdded_added, modifyProc_added, Bool.or_eq_true, decide_eq_true_eq] at ht
    exact (held_of_add hother hself t).mpr (ht.imp (h.held t · hne) id)
  · exact (h.agrees p).congr rfl rfl rfl
  · exact fun t ht => ⟨ht, id⟩

theorem owned_addTask {s : State} (h : Owned s) (p : ProcId) {ts : List TaskId}
    (hf : s.fresh ts = true) : Owned ((s.modifyProc p (·.addTask ts)).markAdded ts) := by
  have hn := owned_notify (owned_push h p hf) p
  simpa [State.modifyProc, State.markAdded, Processor.addTask] using hn

/-! ## The balancer -/

/-- `stealRun` does not take the task that the processor is still running. -/
def StealsIdle (s : State) (a : Act) : Prop :=
  a = .stealRun → ∀ x ∈ s.stealing, ∀ t ∈ (s.proc x.1).runningTask,
    t ∉ (ConcurrentLinkedDeque.popBackBulk x.2 (s.proc x.1).runQue).1

instance : ∀ s a, Decidable (StealsIdle s a) := fun s a =>
  inferInstanceAs (Decidable (a = .stealRun → ∀ x ∈ s.stealing, ∀ t ∈ (s.proc x.1).runningTask,
    t ∉ (ConcurrentLinkedDeque.popBackBulk x.2 (s.proc x.1).runQue).1))

theorem owned_stealNew {s : State} (h : Owned s) (p : ProcId) (n : Nat) (x) :
    Owned { s.modifyProc p ({ · with newQue := (stolenNew n (s.proc p).newQue).2 }) with
      transfer := s.transfer ++ (stolenNew n (s.proc p).newQue).1
      stealing := x } := by
  refine h.transfer (i := .newQue) ?_ ?_ rfl ((h.agrees p).congr rfl rfl rfl)
    fun t ht => ⟨ht, id⟩
  · intro j hj
    cases j with
    | newQue => exact absurd rfl hj
    | runQue | inHand | runningTask | nextTask => rfl
  · rw [List.append_assoc]
    exact (stolenNew_perm n _).append_left _

theorem owned_stealRun {s : State} (h : Owned s) {p : ProcId} {n : Nat}
    (hst : s.stealing = some (p, n)) (hidle : StealsIdle s .stealRun) :
    Owned { s.modifyProc p
        ({ · with runQue := (ConcurrentLinkedDeque.popBackBulk n (s.proc p).runQue).2 }) with
      transfer := s.transfer ++ (ConcurrentLinkedDeque.popBackBulk n (s.proc p).runQue).1
      stealing := none } := by
  have hsplit := ConcurrentLinkedDeque.popBackBulk_append n (s.proc p).runQue
  refine h.transfer (i := .runQue) ?_ ?_ rfl ((h.agrees p).congr rfl rfl rfl)
    fun t ht => ⟨ht, fun hm => ?_⟩
  · intro j hj
    cases j with
    | runQue => exact absurd rfl hj
    | newQue | inHand | runningTask | nextTask => rfl
  · rw [List.append_assoc]
    refine List.Perm.append_left _ (List.perm_append_comm.trans ?_)
    exact List.Perm.of_eq hsplit
  · rw [← hsplit, List.mem_append] at hm
    exact hm.resolve_right (hidle rfl (p, n) hst t ht.2.1)

theorem owned_give {s : State} (h : Owned s) (p : ProcId) (n : Nat) :
    Owned { s.modifyProc p (·.addTask (ConcurrentLinkedDeque.popFrontBulk n s.transfer).1) with
      transfer := (ConcurrentLinkedDeque.popFrontBulk n s.transfer).2 } := by
  have hpush : Owned { s.modifyProc p fun P => { P with
        newQue := P.newQue ++ (ConcurrentLinkedDeque.popFrontBulk n s.transfer).1 } with
      transfer := (ConcurrentLinkedDeque.popFrontBulk n s.transfer).2
      stealing := s.stealing } := by
    refine h.transfer (i := .newQue) ?_ ?_ rfl ((h.agrees p).congr rfl rfl rfl)
      fun t ht => ⟨ht, id⟩
    · intro j hj
      cases j with
      | newQue => exact absurd rfl hj
      | runQue | inHand | runningTask | nextTask => rfl
    · have hsplit := ConcurrentLinkedDeque.popFrontBulk_append n s.transfer
      conv_rhs => rw [← hsplit]
      simp only [Processor.held]
      rw [List.perm_iff_count]
      intro a
      simp only [List.count_append]
      omega
  have hn := owned_notify hpush p
  simpa [State.modifyProc, Processor.addTask] using hn

end Nemo.Coroutine
