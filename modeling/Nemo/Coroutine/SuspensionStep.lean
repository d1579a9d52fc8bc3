import Nemo.Coroutine.OwnershipStep

/-!
# Suspensions and wake-ups keep the ownership invariant

`Suspend` hands the running task to a new control block. A `WakeUp` adds an owner to the block,
takes away the element of `waitSet_`, and goes away itself; whoever is the last owner hands the
task to the `runQue_` of the processor on which it was suspended.

`owned_of_reachableBy` closes the induction.
-/

namespace Nemo.Coroutine

open Function (update)
open Infra

/-! ## `Suspend` -/

/-- What `suspendBySelf` does to its processor when the element is new in `waitSet_`. -/
def Processor.suspend (P : Processor) (t : TaskId) (e : SuspendId) : Processor :=
  { P with
    waitSet := update P.waitSet t (some e)
    runQue := P.runQue.tail
    nextTask := P.runQue.head?.or P.nextTask }

/-- `suspendBySelf` in one piece: only the element of `waitSet_` owns the task afterwards. -/
theorem suspendBySelf_eq {s : State} {p : ProcId} {t : TaskId}
    (hw : (s.proc p).waitSet t = none) :
    s.suspendBySelf p t
      = { s with
          task := update s.task t { s.task t with state := .block }
          suspension := update s.suspension s.nextSuspension
            (some { task := t, processor := p, owners := {.waitSet} })
          nextSuspension := s.nextSuspension + 1
          proc := update s.proc p ((s.proc p).suspend t s.nextSuspension) } := by
  have hmore : ({.taskPtr, .waitSet} : Finset Owner).erase .taskPtr = {.waitSet} := by decide
  unfold State.suspendBySelf
  simp only [hw, Option.isNone_none, if_true]
  rw [releaseOwner_of_more (b := { task := t, processor := p, owners := {.taskPtr, .waitSet} })
    (by simp) (by rw [hmore]; simp)]
  simp only [hmore]
  cases hq : (s.proc p).runQue <;>
    simp [State.modifyProc, State.setSuspension, State.setTask, Processor.suspend, hq]

/-- Nothing waits for a task that runs and has not called `Suspend`. -/
theorem Owned.waitSet_none {s : State} (h : Owned s) {p q : ProcId} {t : TaskId}
    (ht : (s.proc p).runningTask = some t) (hst : (s.task t).state = .running) :
    (s.proc q).waitSet t = none := by
  have hs : ¬ (s.proc p).Suspended s.task t := by
    rintro ⟨-, -, hb⟩
    rw [hst] at hb
    cases hb
  by_contra hne
  obtain ⟨e, he⟩ := Option.ne_none_iff_exists'.mp hne
  obtain ⟨b, hb, hbt, -, ho⟩ := h.suspensions.waitSet q t e he
  refine h.not_mem_of_running ht hs (i := .suspension e) (by simp) ?_
  rw [held_suspension hb (Finset.ne_empty_of_mem ho), hbt]
  exact List.mem_singleton.mpr rfl

/-- The new control block, and all others. -/
theorem suspensionsOk_suspendBySelf {s : State} (h : Owned s) {p : ProcId} {t : TaskId}
    (hp : (s.task t).processor = some p) (hnone : (s.proc p).waitSet t = none) :
    SuspensionsOk (s.suspendBySelf p t) := by
  have hfresh := h.suspensions.fresh s.nextSuspension (Nat.le_refl _)
  have hwait : ∀ q t', (s.proc q).waitSet t' ≠ some s.nextSuspension := by
    intro q t' he
    obtain ⟨b, hb, -⟩ := h.suspensions.waitSet q t' _ he
    rw [hfresh] at hb
    cases hb
  have hcall : ∀ c st, s.call c ≠ some ⟨s.nextSuspension, st⟩ := by
    intro c st hc
    obtain ⟨b, hb⟩ := h.suspensions.call c _ st hc
    rw [hfresh] at hb
    cases hb
  rw [suspendBySelf_eq hnone]
  have hw : ∀ q t' e, (update s.proc p ((s.proc p).suspend t s.nextSuspension) q).waitSet t' = some e
      ↔ (q = p ∧ t' = t ∧ e = s.nextSuspension) ∨
        (¬ (q = p ∧ t' = t) ∧ (s.proc q).waitSet t' = some e) := by
    intro q t' e
    by_cases hq : q = p
    · subst hq
      by_cases htt : t' = t
      · subst htt
        simp [Processor.suspend, eq_comm]
      · simp [Processor.suspend, htt]
    · simp [hq]
  refine h.suspensions.update rfl ?_ ?_ (fun _ _ _ _ => Iff.rfl) ?_ ?_ ?_
  · intro e he
    exact ⟨Nat.ne_of_gt (Nat.lt_of_succ_le he), Nat.le_of_succ_le he⟩
  · intro q t' e he
    rw [hw]
    by_cases hqt : q = p ∧ t' = t
    · obtain ⟨rfl, rfl⟩ := hqt
      simp [he, hnone]
    · simp [hqt, he]
  · intro t'
    by_cases htt : t' = t
    · subst htt
      simp
    · simp [htt]
  · refine ⟨by simp, fun _ => (hw _ _ _).mpr (Or.inl ⟨rfl, rfl, rfl⟩), fun c => ?_, by simp,
      by simp, by simp, fun _ => by simpa using hp, by simp⟩
    simp [hcall]
  · intro q t' he
    rcases (hw _ _ _).mp he with ⟨rfl, rfl, -⟩ | ⟨-, he⟩
    · simp
    · exact absurd he (hwait q t')

theorem owned_suspend {s : State} (h : Owned s) {p : ProcId} {t : TaskId}
    (hpc : (s.proc p).pc = .running) (ht : (s.proc p).runningTask = some t)
    (hst : (s.task t).state = .running) : Owned (s.suspendBySelf p t) := by
  have hsu := suspensionsOk_suspendBySelf h ((h.agrees p).processor t hpc ht)
    (h.waitSet_none (q := p) ht hst)
  have hs : ¬ (s.proc p).Suspended s.task t := by
    rintro ⟨-, -, hb⟩
    rw [hst] at hb
    cases hb
  have hnone := h.waitSet_none (q := p) ht hst
  have hfresh := h.suspensions.fresh s.nextSuspension (Nat.le_refl _)
  have hnext := (h.agrees p).nextTask_none_of_running ht (by simp [hst])
  have hne : ∀ q, q ≠ p → (s.proc q).runningTask ≠ some t := fun q hq hqt =>
    hq (h.runningTask_unique hqt ht)
  rw [suspendBySelf_eq hnone] at hsu ⊢
  generalize hs' : ({ s with
    task := update s.task t { s.task t with state := .block }
    suspension := update s.suspension s.nextSuspension
      (some { task := t, processor := p, owners := {.waitSet} })
    nextSuspension := s.nextSuspension + 1
    proc := update s.proc p ((s.proc p).suspend t s.nextSuspension) } : State) = s' at hsu ⊢
  have hproc : ∀ q, q ≠ p → s'.proc q = s.proc q := fun q hq => by
    rw [← hs']
    exact Function.update_of_ne hq _ _
  have hself : s'.proc p = (s.proc p).suspend t s.nextSuspension := by simp [← hs']
  have htask : s'.task = update s.task t { s.task t with state := .block } := by rw [← hs']
  have hsusp : s'.suspension = update s.suspension s.nextSuspension
      (some { task := t, processor := p, owners := {.waitSet} }) := by rw [← hs']
  have hsuspended : (s'.proc p).Suspended s'.task t := by
    rw [hself, htask]
    exact ⟨Or.inl hpc, ht, by rw [Function.update_self]⟩
  have hkeep : Keeps (fun _ => False) s.held s'.held := by
    refine Keeps.of_perm [.proc p .runningTask, .suspension s.nextSuspension, .proc p .runQue,
      .proc p .nextTask] [] (by simp) ?_ ?_ (by simp)
    · intro i hi
      cases i with
      | proc q i =>
        by_cases hq : q = p
        · subst hq
          simp only [State.held, hself]
          cases i with
          | newQue | inHand => rfl
          | runQue | runningTask | nextTask => simp at hi
        · simp only [State.held, hproc q hq, htask]
          exact held_update (hne q hq) i
      | suspension e =>
        have he : e ≠ s.nextSuspension := fun he => hi (by simp [he])
        simp only [State.held, hsusp, Function.update_of_ne he]
      | transfer => simp only [State.held, ← hs']
    · have h1 : s'.held (.proc p .runningTask) = [] := held_runningTask_of_suspended hsuspended
      have h2 : s.held (.proc p .runningTask) = [t] := held_runningTask_of_not_suspended ht hs
      have h3 : s'.held (.suspension s.nextSuspension) = [t] := by
        simp [State.held, hsusp, Suspension.held]
      have h4 : s.held (.suspension s.nextSuspension) = [] := by simp [State.held, hfresh]
      simp only [List.flatMap_cons, List.flatMap_nil, h1, h2, h3, h4]
      simp only [State.held, hself, Processor.held, Processor.suspend, hnext]
      cases (s.proc p).runQue with
      | nil => simp
      | cons a l => simp
  refine ⟨hkeep.exclusive h.exclusive, fun t' ht' => ?_, fun t' ht' hend => ?_, ?_, ?_, ?_⟩
  · rw [← hs']
    exact h.added t' (hkeep.old t' ht')
  · rw [← hs'] at ht'
    refine hkeep.kept t' id (h.held t' ht' fun he => ?_)
    by_cases htt : t' = t
    · rw [htt, hst] at he
      rcases he with he | he <;> cases he
    · rw [htask, Function.update_of_ne htt] at hend
      exact hend he
  · intro q
    by_cases hq : q = p
    · subst hq
      rw [hself, htask]
      have htt : ∀ t', (s.proc q).runningTask = some t' → t' = t := fun t' ht' =>
        Option.some.inj (ht'.symm.trans ht)
      have hpc' : ((s.proc q).suspend t s.nextSuspension).pc = .running := hpc
      refine ⟨fun t' _ ht' => ?_, fun t' _ ht' => Or.inr ?_, fun t' h1 => ?_, fun t' h1 => ?_,
        fun _ => ⟨t, ?_⟩⟩
      · rw [htt t' ht', Function.update_self]
        exact (h.agrees q).processor t hpc ht
      · rw [htt t' ht', Function.update_self]
      · rw [hpc'] at h1; cases h1
      · rw [hpc'] at h1; simp at h1
      · rw [← hself, ← htask]
        exact hsuspended
    · rw [hproc q hq, htask]
      exact (h.agrees q).update (hne q hq)
  · intro q t' hsq
    by_cases hq : q = p
    · subst hq
      have htt : t' = t := by
        have h1 := hsq.2.1
        rw [hself] at h1
        exact Option.some.inj (h1.symm.trans ht)
      refine Or.inr ⟨s.nextSuspension, _, by rw [hsusp, Function.update_self], by simp, ?_, rfl⟩
      exact htt.symm
    · rw [hproc q hq, htask, suspended_update (hne q hq)] at hsq
      rcases h.returns q t' hsq with hr | ⟨e, b, hb, hr⟩
      · exact Or.inl (by rw [hproc q hq]; exact hr)
      · refine Or.inr ⟨e, b, ?_, hr⟩
        rw [hsusp, Function.update_of_ne, hb]
        rintro rfl
        rw [hfresh] at hb
        cases hb
  · exact hsu

/-! ## `WakeUp` -/

/-- A step on a control block that keeps some owner. No queue changes. -/
theorem Owned.of_suspension {s s' : State} (h : Owned s) {e : SuspendId} {b b' : Suspension}
    (hs : s'.suspension = update s.suspension e (some b')) (hb : s.suspension e = some b)
    (ho : b.owners ≠ ∅) (ho' : b'.owners ≠ ∅) (ht : b'.task = b.task)
    (hp : b'.processor = b.processor)
    (hproc : ∀ p, ∃ W, s'.proc p = { s.proc p with waitSet := W })
    (hrest : s'.task = s.task ∧ s'.added = s.added ∧ s'.transfer = s.transfer)
    (hsu : SuspensionsOk s') : Owned s' := by
  obtain ⟨htask, hadd, htr⟩ := hrest
  have hheld : s'.held = s.held := by
    funext i
    cases i with
    | proc p i =>
      obtain ⟨W, hW⟩ := hproc p
      simp only [State.held, htask, hW]
      cases i <;> rfl
    | suspension e' =>
      by_cases he : e' = e
      · subst he
        rw [held_suspension hb ho, held_suspension (by rw [hs, Function.update_self]) ho', ht]
      · simp only [State.held, hs, Function.update_of_ne he]
    | transfer => exact htr
  obtain ⟨h1, h2, h3⟩ := h.of_keeps (Keeps.of_eq hheld) htask hadd
  refine ⟨h1, h2, h3, fun p => ?_, fun p t hsp => ?_, hsu⟩
  · obtain ⟨W, hW⟩ := hproc p
    rw [htask, hW]
    exact (h.agrees p).congr rfl rfl rfl
  · obtain ⟨W, hW⟩ := hproc p
    rw [htask, hW] at hsp
    rcases h.returns p t hsp with hrun | ⟨e', b'', hb'', ho'', hbt, hbp⟩
    · exact Or.inl (by rw [hW]; exact hrun)
    · by_cases he : e' = e
      · subst he
        obtain rfl : b = b'' := Option.some.inj (hb.symm.trans hb'')
        exact Or.inr ⟨e', b', by rw [hs, Function.update_self], ho', ht.trans hbt, hp.trans hbp⟩
      · exact Or.inr ⟨e', b'', by rw [hs, Function.update_of_ne he, hb''], ho'', hbt, hbp⟩

/-- Nothing that exists is fresh. -/
theorem SuspensionsOk.ne_of_fresh {s : State} (h : SuspensionsOk s) {e : SuspendId}
    {b : Suspension} (hb : s.suspension e = some b) {e' : SuspendId}
    (hle : s.nextSuspension ≤ e') : e' ≠ e ∧ s.nextSuspension ≤ e' := by
  refine ⟨?_, hle⟩
  rintro rfl
  rw [h.fresh _ hle] at hb
  cases hb

/-- The element of `waitSet_` that holds a control block. -/
theorem SuspensionsOk.of_waitSet {s : State} (h : SuspensionsOk s) {e : SuspendId} {b : Suspension}
    (hb : s.suspension e = some b) {p : ProcId} {t : TaskId} (he : (s.proc p).waitSet t = some e) :
    b.task = t ∧ b.processor = p ∧ .waitSet ∈ b.owners := by
  obtain ⟨b', hb', hrest⟩ := h.waitSet p t e he
  obtain rfl : b = b' := Option.some.inj (hb.symm.trans hb')
  exact hrest

theorem owned_lock {s : State} (h : Owned s) {c : Caller} {e : SuspendId} {b : Suspension}
    (hb : s.suspension e = some b) (hc : s.call c = none) (ho : b.owners ≠ ∅) :
    Owned ((s.setSuspension e { b with owners := insert (.caller c) b.owners, locked := true })
      |>.setCall c (some ⟨e, .locked⟩)) := by
  have hok := h.suspensions.ok e b hb
  have hne : insert (Owner.caller c) b.owners ≠ ∅ := Finset.insert_ne_empty _ _
  refine h.of_suspension rfl hb ho hne rfl rfl (fun p => ⟨_, rfl⟩) ⟨rfl, rfl, rfl⟩ ?_
  refine h.suspensions.update rfl (fun _ => h.suspensions.ne_of_fresh hb) (fun _ _ _ _ => Iff.rfl)
    ?_ (fun _ => rfl) ?_ ?_
  · intro c' e' st he
    by_cases hcc : c' = c
    · subst hcc
      simp [hc, Ne.symm he]
    · simp [hcc]
  · refine ⟨?_, ?_, fun c' => ?_, fun _ _ => rfl, by simp, fun _ _ => ⟨c, by simp⟩,
      fun _ => hok.processor ho, ?_⟩
    · simpa using hok.taskPtr
    · simpa using hok.waitSet
    · by_cases hcc : c' = c
      · subst hcc
        simp
      · simpa [hcc] using hok.caller c'
    · rw [hok.pushes, if_neg ho, if_neg hne]
  · intro p t he
    obtain ⟨hbt, hbp, hbw⟩ := h.suspensions.of_waitSet hb he
    exact ⟨hbt, hbp, Finset.mem_insert_of_mem hbw⟩

/-- A call in progress is an owner, so its control block is alive. -/
theorem Owned.caller_mem {s : State} (h : Owned s) {c : Caller} {e : SuspendId} {st : WakeStage}
    {b : Suspension} (hc : s.call c = some ⟨e, st⟩) (hb : s.suspension e = some b) :
    .caller c ∈ b.owners :=
  ((h.suspensions.ok e b hb).caller c).mpr ⟨st, hc⟩

/--
**`waitSet_.erase` finds its own element.** The set is searched by the raw task pointer, and what
it finds under that pointer while a `WakeUp` of `e` is in progress is the element of `e`.
-/
theorem Owned.eraseWaitSet_eq {s : State} (h : Owned s) {c : Caller} {e : SuspendId}
    {b : Suspension} {st : WakeStage} (hc : s.call c = some ⟨e, st⟩)
    (hb : s.suspension e = some b) :
    s.eraseWaitSet b.processor b.task
      = if .waitSet ∈ b.owners then
          (s.modifyProc b.processor fun P =>
            { P with waitSet := update P.waitSet b.task none }).setSuspension e
              { b with owners := b.owners.erase .waitSet }
        else s := by
  have hmem := h.caller_mem hc hb
  have hok := h.suspensions.ok e b hb
  unfold State.eraseWaitSet
  cases hw : (s.proc b.processor).waitSet b.task with
  | none =>
    rw [if_neg fun ho => by rw [hok.waitSet ho] at hw; cases hw]
  | some e' =>
    obtain ⟨b', hb', hbt, -, ho'⟩ := h.suspensions.waitSet _ _ _ hw
    have hee : e = e' := h.suspension_unique hb hb' (Finset.ne_empty_of_mem hmem)
      (Finset.ne_empty_of_mem ho') hbt.symm
    subst hee
    obtain rfl : b = b' := Option.some.inj (hb.symm.trans hb')
    have hcaller : .caller c ∈ b.owners.erase .waitSet :=
      Finset.mem_erase.mpr ⟨by simp, hmem⟩
    rw [if_pos ho']
    exact releaseOwner_of_more hb (Finset.ne_empty_of_mem hcaller)

/-- A call goes on without touching a control block. -/
theorem owned_setStage {s : State} (h : Owned s) {c : Caller} {e : SuspendId} {b : Suspension}
    {st st' : WakeStage} (hc : s.call c = some ⟨e, st⟩) (hb : s.suspension e = some b)
    (hw : st = .locked → .waitSet ∉ b.owners) : Owned (s.setCall c (some ⟨e, st'⟩)) := by
  have hok := h.suspensions.ok e b hb
  have ho := Finset.ne_empty_of_mem (h.caller_mem hc hb)
  have hself : (s.setCall c (some ⟨e, st'⟩)).suspension = update s.suspension e (some b) := by
    rw [setCall_suspension, ← hb, Function.update_eq_self]
  refine h.of_suspension hself hb ho ho rfl rfl (fun p => ⟨_, rfl⟩) ⟨rfl, rfl, rfl⟩ ?_
  refine h.suspensions.update hself (fun _ => h.suspensions.ne_of_fresh hb)
    (fun _ _ _ _ => Iff.rfl) ?_ (fun _ => rfl) ?_ fun p t => h.suspensions.of_waitSet hb
  · intro c' e' st'' he
    by_cases hcc : c' = c
    · subst hcc
      simp [hc, Ne.symm he]
    · simp [hcc]
  · refine ⟨hok.taskPtr, hok.waitSet, fun c' => ?_, hok.locked, hok.unlocked, fun hl how => ?_,
      hok.processor, hok.pushes⟩
    · by_cases hcc : c' = c
      · subst hcc
        simpa using h.caller_mem hc hb
      · simpa [hcc] using hok.caller c'
    · obtain ⟨c', hc'⟩ := hok.erasing hl how
      refine ⟨c', ?_⟩
      have hcc : c' ≠ c := by
        rintro rfl
        rw [hc] at hc'
        cases hc'
        exact hw rfl how
      simpa [hcc] using hc'

theorem owned_erase {s : State} (h : Owned s) {c : Caller} {e : SuspendId} {b : Suspension}
    {p : ProcId} {st : WakeStage} (hc : s.call c = some ⟨e, .locked⟩)
    (hb : s.suspension e = some b) (hp : (s.task b.task).processor = some p)
    (hst : st = .notifying p ∨ st = .returning) :
    Owned ((s.eraseWaitSet p b.task).setCall c (some ⟨e, st⟩)) := by
  have hok := h.suspensions.ok e b hb
  have hmem := h.caller_mem hc hb
  have ho := Finset.ne_empty_of_mem hmem
  obtain rfl : b.processor = p := Option.some.inj ((hok.processor ho).symm.trans hp)
  have hne : st ≠ .locked := by rcases hst with rfl | rfl <;> simp
  rw [h.eraseWaitSet_eq hc hb]
  split
  · next how =>
    have hmem' : .caller c ∈ b.owners.erase .waitSet := Finset.mem_erase.mpr ⟨by simp, hmem⟩
    have ho' := Finset.ne_empty_of_mem hmem'
    have hself : ∀ q, (((s.modifyProc b.processor fun P =>
        { P with waitSet := update P.waitSet b.task none }).setSuspension e
          { b with owners := b.owners.erase .waitSet }).setCall c (some ⟨e, st⟩)).proc q
        = { s.proc q with waitSet :=
              if q = b.processor then update (s.proc q).waitSet b.task none
              else (s.proc q).waitSet } := by
      intro q
      rw [setCall_proc, setSuspension_proc, modifyProc_proc]
      by_cases hq : q = b.processor
      · rw [if_pos hq, if_pos hq, hq]
      · rw [if_neg hq, if_neg hq]
    refine h.of_suspension rfl hb ho ho' rfl rfl (fun q => ⟨_, hself q⟩) ⟨rfl, rfl, rfl⟩ ?_
    have hw : ∀ q t e', (if q = b.processor then update (s.proc q).waitSet b.task none
        else (s.proc q).waitSet) t = some e' ↔
          (s.proc q).waitSet t = some e' ∧ ¬ (q = b.processor ∧ t = b.task) := by
      intro q t e'
      by_cases hq : q = b.processor <;> by_cases ht : t = b.task <;> simp [hq, ht]
    refine h.suspensions.update rfl (fun _ => h.suspensions.ne_of_fresh hb) ?_ ?_ (fun _ => rfl)
      ?_ ?_
    · intro q t e' he
      rw [hself, hw]
      refine ⟨And.left, fun hqt => ⟨hqt, ?_⟩⟩
      rintro ⟨rfl, rfl⟩
      rw [hok.waitSet how] at hqt
      exact he (Option.some.inj hqt).symm
    · intro c' e' st' he
      by_cases hcc : c' = c
      · subst hcc
        simp [hc, Ne.symm he]
      · simp [hcc]
    · refine ⟨fun hm => hok.taskPtr (Finset.mem_of_mem_erase hm),
        fun hm => absurd hm (Finset.notMem_erase _ _), fun c' => ?_,
        fun c' hm => hok.locked c' (Finset.mem_of_mem_erase hm), fun hl => ?_,
        fun _ hm => absurd hm (Finset.notMem_erase _ _), fun _ => hok.processor ho, ?_⟩
      · by_cases hcc : c' = c
        · subst hcc
          simpa using hmem
        · simpa [hcc] using hok.caller c'
      · have hlocked := hok.locked c hmem
        rw [hlocked] at hl
        cases hl
      · rw [hok.pushes, if_neg ho, if_neg ho']
    · intro q t he
      rw [hself, hw] at he
      obtain ⟨hbt, hbp, -⟩ := h.suspensions.of_waitSet hb he.1
      exact absurd ⟨hbp.symm, hbt.symm⟩ he.2
  · next how => exact owned_setStage h hc hb fun _ => how

theorem owned_notifyCall {s : State} (h : Owned s) {c : Caller} {e : SuspendId} {p : ProcId}
    (hc : s.call c = some ⟨e, .notifying p⟩) :
    Owned ((s.modifyProc p (·.notifiNewQueCondition)).setCall c (some ⟨e, .returning⟩)) := by
  obtain ⟨b, hb⟩ := h.suspensions.call c e _ hc
  exact owned_setStage (owned_notify h p) hc hb (by simp)

/-- The suspensions after the end of a `WakeUp`. -/
theorem suspensionsOk_release {s s' : State} (h : Owned s) {c : Caller} {e : SuspendId}
    {b : Suspension} (hc : s.call c = some ⟨e, .returning⟩) (hb : s.suspension e = some b)
    (hs : s'.suspension = update s.suspension e
      (some { b with owners := b.owners.erase (.caller c), pushes := b.pushes +
        if b.owners.erase (.caller c) = ∅ then 1 else 0 }))
    (hn : s'.nextSuspension = s.nextSuspension)
    (hw : ∀ p, (s'.proc p).waitSet = (s.proc p).waitSet)
    (hcall : s'.call = update s.call c none) (htask : s'.task = s.task) : SuspensionsOk s' := by
  have hok := h.suspensions.ok e b hb
  have hmem := h.caller_mem hc hb
  have ho := Finset.ne_empty_of_mem hmem
  refine h.suspensions.update hs ?_ ?_ ?_ (fun _ => by rw [htask]) ?_ ?_
  · rw [hn]
    exact fun _ => h.suspensions.ne_of_fresh hb
  · intro p t e' _
    rw [hw]
  · intro c' e' st he
    rw [hcall]
    by_cases hcc : c' = c
    · subst hcc
      simp [hc, Ne.symm he]
    · simp [hcc]
  · refine ⟨fun hm => hok.taskPtr (Finset.mem_of_mem_erase hm), fun hm => ?_, fun c' => ?_,
      fun c' hm => hok.locked c' (Finset.mem_of_mem_erase hm), fun hl => ?_, fun hl hm => ?_,
      fun _ => ?_, ?_⟩
    · rw [hw]
      exact hok.waitSet (Finset.mem_of_mem_erase hm)
    · rw [hcall]
      by_cases hcc : c' = c
      · subst hcc
        simp
      · simpa [hcc] using hok.caller c'
    · have hlocked := hok.locked c hmem
      rw [hlocked] at hl
      cases hl
    · obtain ⟨c', hc'⟩ := hok.erasing hl (Finset.mem_of_mem_erase hm)
      refine ⟨c', ?_⟩
      have hcc : c' ≠ c := by
        rintro rfl
        rw [hc] at hc'
        cases hc'
      simpa [hcall, hcc] using hc'
    · rw [htask]
      exact hok.processor ho
    · rw [hok.pushes, if_neg ho, Nat.zero_add]
  · intro p t he
    rw [hw] at he
    obtain ⟨hbt, hbp, hbw⟩ := h.suspensions.of_waitSet hb he
    exact ⟨hbt, hbp, Finset.mem_erase.mpr ⟨by simp, hbw⟩⟩

/-- The last owner of a control block goes away: the deleter takes the task to `runQue_`. -/
theorem owned_deleter {s s' : State} (h : Owned s) {e : SuspendId} {b : Suspension}
    (hb : s.suspension e = some b) (ho : b.owners ≠ ∅)
    (hs : ∃ n, s'.suspension = update s.suspension e (some { b with owners := ∅, pushes := n }))
    (hproc : s'.proc = (s.modifyProc b.processor fun P =>
      { P with runQue := P.runQue ++ [b.task] }).proc)
    (hrest : s'.task = s.task ∧ s'.added = s.added ∧ s'.transfer = s.transfer)
    (hsu : SuspensionsOk s') : Owned s' := by
  obtain ⟨htask, hadd, htr⟩ := hrest
  obtain ⟨n, hs⟩ := hs
  have hself : s'.proc b.processor = { s.proc b.processor with
      runQue := (s.proc b.processor).runQue ++ [b.task] } := by
    rw [hproc, modifyProc_proc_self]
  have hother : ∀ q, q ≠ b.processor → s'.proc q = s.proc q := fun q hq => by
    rw [hproc, modifyProc_proc_ne _ _ hq]
  have hkeep : Keeps s.Ended s.held s'.held := by
    refine Keeps.of_perm [.suspension e, .proc b.processor .runQue] [] (by simp) ?_ ?_ (by simp)
    · intro i hi
      cases i with
      | proc q i =>
        by_cases hq : q = b.processor
        · subst hq
          simp only [State.held, hself, htask]
          cases i with
          | runQue => simp at hi
          | newQue | inHand | runningTask | nextTask => rfl
        · simp only [State.held, hother q hq, htask]
      | suspension e' =>
        have he : e' ≠ e := fun he => hi (by simp [he])
        simp only [State.held, hs, Function.update_of_ne he]
      | transfer => exact htr
    · simp only [List.flatMap_cons, List.flatMap_nil, held_suspension hb ho]
      simp [State.held, hs, Suspension.held, hself, Processor.held, List.perm_append_singleton]
  obtain ⟨h1, h2, h3⟩ := h.of_keeps hkeep htask hadd
  refine ⟨h1, h2, h3, fun q => ?_, fun q t hsp => ?_, hsu⟩
  · rw [htask]
    by_cases hq : q = b.processor
    · subst hq
      rw [hself]
      exact (h.agrees _).congr rfl rfl rfl
    · rw [hother q hq]
      exact h.agrees q
  · have hsp' : (s.proc q).Suspended s.task t := by
      rw [htask] at hsp
      by_cases hq : q = b.processor
      · subst hq
        rw [hself] at hsp
        exact hsp
      · rwa [hother q hq] at hsp
    have hmono : ∀ t', t' ∈ (s.proc q).runQue → t' ∈ (s'.proc q).runQue := by
      intro t' ht'
      by_cases hq : q = b.processor
      · subst hq
        rw [hself]
        exact List.mem_append_left _ ht'
      · rwa [hother q hq]
    rcases h.returns q t hsp' with hr | ⟨e', b', hb', ho', hbt, hbp⟩
    · exact Or.inl (hmono t hr)
    · by_cases he : e' = e
      · subst he
        obtain rfl : b = b' := Option.some.inj (hb.symm.trans hb')
        subst hbp
        refine Or.inl ?_
        rw [hself, ← hbt]
        exact List.mem_append_right _ (List.mem_singleton.mpr rfl)
      · exact Or.inr ⟨e', b', by rw [hs, Function.update_of_ne he, hb'], ho', hbt, hbp⟩

theorem owned_release {s : State} (h : Owned s) {c : Caller} {e : SuspendId}
    (hc : s.call c = some ⟨e, .returning⟩) :
    Owned ((s.setCall c none).releaseOwner e (.caller c)) := by
  obtain ⟨b, hb⟩ := h.suspensions.call c e _ hc
  have hb' : (s.setCall c none).suspension e = some b := hb
  have ho := Finset.ne_empty_of_mem (h.caller_mem hc hb)
  by_cases hlast : b.owners.erase (.caller c) = ∅
  · rw [releaseOwner_of_last hb' hlast]
    refine owned_deleter h hb ho ⟨_, rfl⟩ rfl ⟨rfl, rfl, rfl⟩ ?_
    refine suspensionsOk_release h hc hb (by simp [hlast]) rfl (fun p => ?_) rfl rfl
    rw [modifyProc_proc]
    split
    · next hp => rw [hp]; rfl
    · rfl
  · rw [releaseOwner_of_more hb' hlast]
    refine h.of_suspension rfl hb ho hlast rfl rfl (fun p => ⟨_, rfl⟩) ⟨rfl, rfl, rfl⟩ ?_
    exact suspensionsOk_release h hc hb (by simp [hlast]) rfl (fun _ => rfl) rfl rfl

/-! ## All runs -/

theorem local_moves (P P' : Processor) (h : P.Local) (hm : Processor.Moves P P') : P'.Local := by
  refine ⟨runningSet_moves P P' h.runningSet hm, fun hne => ?_⟩
  cases hm with
  | popNew => exact ⟨_, rfl⟩
  | pushNew => exact absurd rfl hne
  | notify =>
    obtain ⟨k, hk⟩ := h.inHand (by rwa [(notifiNewQueCondition_rest P).1] at hne)
    refine ⟨k, ((notifiNewQueCondition_pc P).resolve_right fun hb => ?_).trans hk⟩
    rw [hk] at hb
    cases hb.1
  | @addTask ts =>
    have hnotifi := notifiNewQueCondition_pc { P with newQue := P.newQue ++ ts }
    obtain ⟨k, hk⟩ := h.inHand (by
      rwa [Processor.addTask, (notifiNewQueCondition_rest _).1] at hne)
    refine ⟨k, (hnotifi.resolve_right fun hb => ?_).trans hk⟩
    have hb1 : P.pc = .blocked := hb.1
    rw [hk] at hb1
    cases hb1
  | suspend | eraseWaitSet | stealNew | stealRun => exact h.inHand hne
  | popFront hpc =>
    obtain ⟨k, hk⟩ := h.inHand hne
    rcases hpc with hpc | hpc | hpc <;> rw [hk] at hpc <;> cases hpc
  | takeNextTask hpc =>
    obtain ⟨k, hk⟩ := h.inHand hne
    rcases hpc with hpc | hpc <;> rw [hk] at hpc <;> cases hpc
  | acquireMiss hpc | retryMiss hpc | skipWait hpc | wait hpc | wakeUp hpc | spurious hpc
  | dispatch hpc | swapOut hpc | switch hpc | requeue hpc | takeNextMiss hpc | eraseHit hpc =>
    obtain ⟨k, hk⟩ := h.inHand hne
    rw [hk] at hpc
    cases hpc

theorem local_of_reachableBy {P : State → Act → Prop} {s : State}
    (h : scheduler.ReachableBy P s) : ∀ p, (s.proc p).Local := by
  have h0 : (scheduler.init.proc 0).Local := ⟨rfl, fun hne => absurd rfl hne⟩
  refine h.invariant (I := fun s => ∀ p, (s.proc p).Local) (fun _ => h0) fun s a s' hI _ hs => ?_
  exact forall_proc_step local_moves (fun _ _ _ hq => ⟨hq.runningSet, hq.inHand⟩)
    (fun _ _ _ hq => ⟨hq.runningSet, hq.inHand⟩) hI hs

theorem Owned.setRange {s : State} (h : Owned s) (r : Nat → Option ProcId) :
    Owned { s with range := r } :=
  ⟨h.exclusive, h.added, h.held, h.agrees, h.returns,
    h.suspensions.congr rfl rfl (fun _ => rfl) rfl fun _ _ _ _ => rfl⟩

theorem owned_step {s s' : State} {a : Act} (hl : ∀ p, (s.proc p).Local) (h : Owned s)
    (hidle : StealsIdle s a) (hs : step s a = some s') : Owned s' := by
  cases steps_of_step hs with
  | @process p _ hp => exact owned_process h (hl p) hp
  | spurious hpc =>
    have hns := not_suspended_of_bound (P := s.proc _) s.task (by rw [hpc]; rfl)
    exact h.modifyProc_idle (by simp) hns (not_suspended_of_bound _ rfl)
      (agrees_of_not_bound rfl ((h.agrees _).nextTask_none hns))
  | suspend ht _ hw hq hst =>
    obtain rfl := h.runningTask_unique ht hq
    exact owned_suspend h (pc_of_atWork hw) ht hst
  | yield hw => exact owned_yield h (pc_of_atWork hw)
  | finish ht _ hst hend => exact owned_finish h ht hst hend
  | lockExpired => exact h
  | lock hb hc ho => exact owned_lock h hb hc ho
  | eraseNone hc hb hp =>
    have ho := Finset.ne_empty_of_mem (h.caller_mem hc hb)
    have hsome := (h.suspensions.ok _ _ hb).processor ho
    rw [hp] at hsome
    cases hsome
  | erase hc hb hp hst => exact owned_erase h hc hb hp hst
  | notify hc => exact owned_notifyCall h hc
  | release hc => exact owned_release h hc
  | addTask hf => exact owned_addTask h _ hf
  | rangeBegin => exact h.setRange _
  | rangePush _ hf => exact owned_push h _ hf
  | rangeEnd => exact h.setRange _
  | stealNew => exact owned_stealNew h _ _ _
  | stealRun hst => exact owned_stealRun h hst hidle
  | give => exact owned_give h _ _

theorem held_init (i : Place) : scheduler.init.held i = [] := by
  cases i with
  | proc p i => cases i <;> rfl
  | suspension e => rfl
  | transfer => rfl

theorem owned_init : Owned scheduler.init where
  exclusive := by
    refine ⟨fun i => ?_, fun i j t hi => ?_⟩
    · rw [held_init]
      exact List.nodup_nil
    · rw [held_init] at hi
      cases hi
  added t ht := by
    obtain ⟨i, hi⟩ := ht
    rw [held_init] at hi
    cases hi
  held t ht := by cases ht
  agrees p := agrees_of_not_bound rfl rfl
  returns p t hs := by cases hs.2.1
  suspensions :=
    { fresh := fun _ _ => rfl
      ok := fun _ _ hb => nomatch hb
      waitSet := fun _ _ _ he => nomatch he
      call := fun _ _ _ hc => nomatch hc }

/--
**The ownership invariant holds along every run** in which the balancer does not take a task from
the `runQue_` of the processor that still runs it.
-/
theorem owned_of_reachableBy {s : State} (h : scheduler.ReachableBy StealsIdle s) : Owned s :=
  h.invariant_of (fun _ => local_of_reachableBy) owned_init
    fun _ _ _ hl hI hp hs => owned_step hl hI hp hs

end Nemo.Coroutine
