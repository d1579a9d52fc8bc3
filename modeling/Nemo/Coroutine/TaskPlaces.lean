import Nemo.Coroutine.SuspensionStep

/-!
# Where a task can be

A step moves tasks from one place to another. It brings a task to none of them that was in none before,
apart from a task that is added.
-/

namespace Nemo.Coroutine

open Function (update)
open Infra

/-- The processor has `t` in one of its queues, or in one of its two pointers. -/
def Processor.Has (P : Processor) (t : TaskId) : Prop :=
  t ∈ P.newQue ∨ t ∈ P.runQue ∨ t ∈ P.inHand ∨ P.runningTask = some t ∨ P.nextTask = some t

/-- The task is somewhere. -/
def State.Has (s : State) (t : TaskId) : Prop :=
  (∃ p, (s.proc p).Has t) ∨
    (∃ e b, s.suspension e = some b ∧ b.owners ≠ ∅ ∧ b.task = t) ∨ t ∈ s.transfer

/-- A task that is somewhere is owned. -/
theorem Owned.held_of_has {s : State} (h : Owned s) {t : TaskId} (ht : s.Has t) :
    Held s.held t := by
  rcases ht with ⟨p, ht | ht | ht | ht | ht⟩ | ⟨e, b, hb, ho, rfl⟩ | ht
  · exact ⟨.proc p .newQue, ht⟩
  · exact ⟨.proc p .runQue, ht⟩
  · exact ⟨.proc p .inHand, ht⟩
  · rcases h.place ht with ht | ht | ⟨e, b, -, -, ht⟩ <;> exact ⟨_, ht⟩
  · exact ⟨.proc p .nextTask, Option.mem_toList.mpr ht⟩
  · exact ⟨.suspension e, by rw [held_suspension hb ho]; exact List.mem_singleton.mpr rfl⟩
  · exact ⟨.transfer, ht⟩

/-! ## One processor -/

variable {s s' : State} {p : ProcId} {f : Processor → Processor} {t : TaskId}

/-- What a changed processor has, it had before, or it is new to it. -/
theorem has_modifyProc {X : Prop} (hf : (f (s.proc p)).Has t → (s.proc p).Has t ∨ X)
    (h : (s.modifyProc p f).Has t) : s.Has t ∨ X := by
  rcases h with ⟨q, hq⟩ | h
  · rw [modifyProc_proc] at hq
    split at hq
    · next e => exact (hf hq).imp_left fun h => .inl ⟨p, h⟩
    · exact .inl (.inl ⟨q, hq⟩)
  · exact .inl (.inr h)

/-- A processor that only rearranges what it has. -/
theorem has_rearranged (hf : (f (s.proc p)).Has t → (s.proc p).Has t)
    (h : (s.modifyProc p f).Has t) : s.Has t :=
  (has_modifyProc (X := False) (fun h => .inl (hf h)) h).resolve_right id

theorem Processor.Has.of_notify {P : Processor} (h : P.notifiNewQueCondition.Has t) : P.Has t := by
  unfold Processor.notifiNewQueCondition at h
  split at h <;> exact h

theorem Processor.Has.of_addTask {P : Processor} {ts : List TaskId} (h : (P.addTask ts).Has t) :
    P.Has t ∨ t ∈ ts := by
  rcases Processor.Has.of_notify h with h | h
  · exact (List.mem_append.mp h).imp_left .inl
  · exact .inl (.inr h)

theorem Processor.Has.of_takeNextTask {P : Processor} (h : P.takeNextTask.Has t) : P.Has t := by
  rcases h with h | h | h | h | h
  · exact .inl h
  · exact .inr (.inl h)
  · exact .inr (.inr (.inl h))
  · exact .inr (.inr (.inr (.inr h)))
  · cases h

/-- A step of `process()` moves tasks within its processor. -/
theorem has_process (h : ProcessSteps s p s') (ht : s'.Has t) : s.Has t := by
  cases h with
  | @popFront t' rest hpc hq =>
    refine has_rearranged (fun h => ?_) ht
    rcases h with h | h | h | h | h
    · exact .inl h
    · exact .inr (.inl (hq ▸ List.mem_cons_of_mem _ h))
    · exact .inr (.inr (.inl h))
    · cases h
      exact .inr (.inl (hq ▸ List.mem_cons_self))
    · exact .inr (.inr (.inr (.inr h)))
  | popNew =>
    refine has_rearranged (fun h => ?_) ht
    rcases h with h | h | h | h
    · cases h
    · exact .inr (.inl h)
    · exact .inl h
    · exact .inr (.inr (.inr h))
  | pushNew =>
    refine has_rearranged (fun h => ?_) ht
    rcases h with h | h | h | h
    · exact .inl h
    · rcases List.mem_append.mp h with h | h
      · exact .inr (.inl h)
      · exact .inr (.inr (.inl h))
    · cases h
    · exact .inr (.inr (.inr h))
  | acquireMiss | retryMiss | skipWait | wait | wakeUp | caseRunning | caseDone =>
    exact has_rearranged (fun h => h) ht
  | swapIn => exact has_rearranged (f := ({ · with pc := .running })) (fun h => h) ht
  | caseBlock | eraseMiss => exact has_rearranged (fun h => h.of_takeNextTask) ht
  | @requeue t' hpc hrun =>
    refine has_rearranged (fun h => ?_) ht
    rcases h with h | h | h | h | h
    · exact .inl h
    · rcases List.mem_append.mp h with h | h
      · exact .inr (.inl h)
      · exact .inr (.inr (.inr (.inl (List.mem_singleton.mp h ▸ hrun))))
    · exact .inr (.inr (.inl h))
    · cases h
    · exact .inr (.inr (.inr (.inr h)))
  | takeNextMiss =>
    refine has_rearranged (fun h => ?_) ht
    rcases h with h | h | h | h | h
    · exact .inl h
    · exact .inr (.inl h)
    · exact .inr (.inr (.inl h))
    · cases h
    · exact .inr (.inr (.inr (.inr h)))
  | @eraseHit t' rest hpc hq =>
    refine has_rearranged (fun h => ?_) ht
    rcases h with h | h | h | h | h
    · exact .inl (hq ▸ List.mem_cons_of_mem _ h)
    · exact .inr (.inl h)
    · exact .inr (.inr (.inl h))
    · cases h
      exact .inl (hq ▸ List.mem_cons_self)
    · exact .inr (.inr (.inr (.inr h)))

/-! ## Suspensions -/

variable {e : SuspendId} {b : Suspension}

/-- A control block that goes on owning its task. -/
theorem has_setSuspension {b' : Suspension} (hb : s.suspension e = some b)
    (h : (s.setSuspension e b').Has t) (htask : b'.task = b.task)
    (howners : b'.owners ≠ ∅ → b.owners ≠ ∅) : s.Has t := by
  rcases h with h | ⟨e', b'', hb'', ho, ht⟩ | h
  · exact .inl h
  · refine .inr (.inl ?_)
    rw [setSuspension_suspension] at hb''
    by_cases heq : e' = e
    · rw [heq, Function.update_self] at hb''
      cases hb''
      exact ⟨e, b, hb, howners ho, htask ▸ ht⟩
    · rw [Function.update_of_ne heq] at hb''
      exact ⟨e', b'', hb'', ho, ht⟩
  · exact .inr (.inr h)

/-- The deleter puts the task of its control block on a queue. -/
theorem has_releaseOwner {o : Owner} (hb : s.suspension e = some b) (hmem : o ∈ b.owners)
    (h : (s.releaseOwner e o).Has t) : s.Has t := by
  have ho := Finset.ne_empty_of_mem hmem
  by_cases hlast : b.owners.erase o = ∅
  · rw [releaseOwner_of_last hb hlast] at h
    have hpush := has_modifyProc (X := t = b.task) (fun h => ?_) h
    · rcases hpush with h | rfl
      · exact has_setSuspension hb h rfl fun h => absurd rfl h
      · exact .inr (.inl ⟨e, b, hb, ho, rfl⟩)
    · rcases h with h | h | h
      · exact .inl (.inl h)
      · rcases List.mem_append.mp h with h | h
        · exact .inl (.inr (.inl h))
        · exact .inr (List.mem_singleton.mp h)
      · exact .inl (.inr (.inr h))
  · rw [releaseOwner_of_more hb hlast] at h
    exact has_setSuspension hb h rfl fun _ => ho

/-- `Suspend` moves the running task to a new control block, and the next one to `nextTask_`. -/
theorem has_suspend {t' : TaskId} (hw : (s.proc p).waitSet t' = none)
    (hrun : (s.proc p).runningTask = some t') (h : (s.suspendBySelf p t').Has t) : s.Has t := by
  rw [suspendBySelf_eq hw] at h
  rcases h with ⟨q, hq⟩ | ⟨e', b, hb, ho, ht⟩ | h
  · left
    by_cases heq : q = p
    · subst heq
      refine ⟨q, ?_⟩
      rw [show ({ s with
          task := _, suspension := _, nextSuspension := _, proc := update s.proc q _ } : State).proc q =
            (s.proc q).suspend t' s.nextSuspension from Function.update_self ..] at hq
      rcases hq with h | h | h | h | h
      · exact .inl h
      · exact .inr (.inl (List.mem_of_mem_tail h))
      · exact .inr (.inr (.inl h))
      · exact .inr (.inr (.inr (.inl h)))
      · rcases Option.or_eq_some_iff.mp h with h | ⟨-, h⟩
        · exact .inr (.inl (List.mem_of_mem_head? h))
        · exact .inr (.inr (.inr (.inr h)))
    · refine ⟨q, ?_⟩
      rwa [show ({ s with
          task := _, suspension := _, nextSuspension := _, proc := update s.proc p _ } : State).proc q =
            s.proc q from Function.update_of_ne heq ..] at hq
  · by_cases heq : e' = s.nextSuspension
    · rw [heq, show ({ s with
          task := _, suspension := update s.suspension s.nextSuspension _, nextSuspension := _,
          proc := _ } : State).suspension s.nextSuspension = _ from Function.update_self ..] at hb
      cases hb
      exact .inl ⟨p, .inr (.inr (.inr (.inl (ht ▸ hrun))))⟩
    · rw [show ({ s with
          task := _, suspension := update s.suspension s.nextSuspension _, nextSuspension := _,
          proc := _ } : State).suspension e' = s.suspension e' from
            Function.update_of_ne heq ..] at hb
      exact .inr (.inl ⟨e', b, hb, ho, ht⟩)
  · exact .inr (.inr h)

/-- The balancer moves tasks between a processor and its hands. -/
theorem has_transfer {tr : List TaskId} {st : Option (ProcId × Nat)}
    (hf : (f (s.proc p)).Has t → (s.proc p).Has t ∨ t ∈ s.transfer)
    (htr : t ∈ tr → t ∈ s.transfer ∨ (s.proc p).Has t)
    (h : ({ s.modifyProc p f with transfer := tr, stealing := st } : State).Has t) : s.Has t := by
  rcases h with h | h | h
  · exact (has_modifyProc hf (.inl h)).elim id fun h => .inr (.inr h)
  · exact .inr (.inl h)
  · exact (htr h).elim (fun h => .inr (.inr h)) fun h => .inl ⟨p, h⟩

/-! ## Every step -/

theorem not_added_of_fresh {ts : List TaskId} (h : s.fresh ts = true) (ht : t ∈ ts) :
    s.added t = false := by
  rw [State.fresh, Bool.and_eq_true, List.all_eq_true] at h
  have := h.2 t ht
  rwa [Bool.not_eq_true'] at this

/-- **A step brings no task back.** What is somewhere after it was somewhere before, or is new. -/
theorem has_step {a : Act} (ho : Owned s) (hs : step s a = some s') (ht : s'.Has t) :
    s.Has t ∨ s.added t = false := by
  cases steps_of_step hs with
  | process hp => exact .inl (has_process hp ht)
  | spurious => exact .inl (has_rearranged (fun h => h) ht)
  | suspend hrun _ _ hq hst => exact .inl (has_suspend (ho.waitSet_none hq hst) hq ht)
  | yield => exact .inl (has_rearranged (fun h => h) ht)
  | finish => exact .inl (has_rearranged (f := ({ · with pc := .switching })) (fun h => h) ht)
  | lockExpired => exact .inl ht
  | lock hb _ hne => exact .inl (has_setSuspension hb ht rfl fun _ => hne)
  | eraseNone => exact .inl ht
  | @erase c e b p stage hc hb hp =>
    left
    have hproc := (ho.suspensions.ok e b hb).processor (Finset.ne_empty_of_mem (ho.caller_mem hc hb))
    rw [hp, Option.some.injEq] at hproc
    subst hproc
    have ht' : (s.eraseWaitSet b.processor b.task).Has t := ht
    rw [ho.eraseWaitSet_eq hc hb] at ht'
    split at ht'
    · refine has_rearranged (f := fun P => { P with waitSet := update P.waitSet b.task none })
        (fun h => h) (has_setSuspension (b := b) hb ht' rfl fun _ => ?_)
      exact Finset.ne_empty_of_mem (ho.caller_mem hc hb)
    · exact ht'
  | notify => exact .inl (has_rearranged (fun h => h.of_notify) ht)
  | release hc =>
    left
    obtain ⟨b, hb⟩ := ho.suspensions.call _ _ _ hc
    exact has_releaseOwner (s := s.setCall _ none) hb (ho.caller_mem hc hb) ht
  | @addTask p o hf =>
    exact has_modifyProc (s := s) (f := (·.addTask o.tasks))
      (fun h => (Processor.Has.of_addTask h).imp_right (not_added_of_fresh hf)) ht
  | rangeBegin | rangeEnd => exact .inl ht
  | rangePush _ hf =>
    refine has_modifyProc (f := fun P => { P with newQue := P.newQue ++ [_] }) (fun h => ?_) ht
    rcases h with h | h
    · rcases List.mem_append.mp h with h | h
      · exact .inl (.inl h)
      · exact .inr (not_added_of_fresh hf h)
    · exact .inl (.inr h)
  | @stealNew p n x =>
    left
    refine has_transfer (f := ({ · with newQue := _ })) (fun h => ?_) (fun h => ?_) ht
    · rcases h with h | h
      · exact .inl (.inl ((stolenNew_perm n _).subset (List.mem_append_right _ h)))
      · exact .inl (.inr h)
    · refine (List.mem_append.mp h).imp_right fun h => ?_
      exact .inl ((stolenNew_perm n _).subset (List.mem_append_left _ h))
  | @stealRun p n =>
    left
    have hsplit := ConcurrentLinkedDeque.popBackBulk_append n (s.proc p).runQue
    refine has_transfer (f := ({ · with runQue := _ })) (fun h => ?_) (fun h => ?_) ht
    · rcases h with h | h | h
      · exact .inl (.inl h)
      · exact .inl (.inr (.inl (hsplit ▸ List.mem_append_left _ h)))
      · exact .inl (.inr (.inr h))
    · exact (List.mem_append.mp h).imp_right fun h =>
        .inr (.inl (hsplit ▸ List.mem_append_right _ h))
  | @give p n =>
    left
    have hsplit := ConcurrentLinkedDeque.popFrontBulk_append n s.transfer
    refine has_transfer (f := (·.addTask _)) (fun h => ?_) (fun h => ?_) ht
    · exact (Processor.Has.of_addTask h).imp_right fun h => hsplit ▸ List.mem_append_left _ h
    · exact .inl (hsplit ▸ List.mem_append_right _ h)

end Nemo.Coroutine
