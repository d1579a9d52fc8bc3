import Nemo.Coroutine.Running

/-!
# Suspensions are resumed once

The control block of a suspension counts the pushes that its deleter has made. A block that some
`WakeUp` has locked ends with one push when the calls are over, and the calls on one block do not
touch another one, although `waitSet_` is searched by the task pointer that all suspensions of a
task share. Here the steps are atomic; `Overlap` takes into account that some of them are not.
-/

namespace Nemo.Coroutine

open Function (update)
open Infra

/-- The remaining steps of a `WakeUp` that has locked its entry. -/
def Act.finishesWakeUp (a : Act) (c : Caller) : Prop :=
  a = .wakeErase c ∨ a = .wakeNotify c ∨ a = .wakeRelease c

/-- From `s` to `s'` the suspension `e` is not pushed, or it is pushed on the `runQue_` of its
processor. No other `runQue_` changes. -/
def PushesOnce (s s' : State) (e : SuspendId) (b : Suspension) : Prop :=
  ∃ b', s'.suspension e = some b' ∧
    ((b'.pushes = b.pushes ∧ ∀ q, (s'.proc q).runQue = (s.proc q).runQue) ∨
      (b'.pushes = b.pushes + 1 ∧ ∀ q, (s'.proc q).runQue =
        if q = b.processor then (s.proc q).runQue ++ [b.task] else (s.proc q).runQue))

structure State.ResumedOnce (s : State) : Prop where
  /-- no suspension is pushed twice -/
  atMostOnce : ∀ e b, s.suspension e = some b → b.pushes ≤ 1
  /-- one that was woken while current is pushed, once the calls on it are over -/
  woken : ∀ e b, s.suspension e = some b → b.locked = true →
    (∀ c st, s.call c ≠ some ⟨e, st⟩) → b.pushes = 1
  /-- one that nobody has woken is not pushed -/
  asleep : ∀ e b, s.suspension e = some b → b.locked = false → b.pushes = 0
  /-- a `WakeUp` on a suspension that has been resumed does nothing -/
  expired : ∀ e b, s.suspension e = some b → b.pushes = 1 →
    (∀ c st, s.call c ≠ some ⟨e, st⟩) ∧ ∀ c s', step s (.wakeLock c e) = some s' → s' = s
  /-- a `WakeUp` pushes only for its own suspension, and leaves every other one as it is -/
  own : ∀ c e st b a s', s.call c = some ⟨e, st⟩ → s.suspension e = some b →
    a.finishesWakeUp c → step s a = some s' →
      PushesOnce s s' e b ∧ ∀ e', e' ≠ e → s'.suspension e' = s.suspension e'

/-! ## The calls on one control block -/

theorem pushesOnce_of_proc {s s' : State} {e : SuspendId} {b : Suspension} (b' : Suspension)
    (hb' : s'.suspension e = some b') (hp : b'.pushes = b.pushes)
    (hq : ∀ q, (s'.proc q).runQue = (s.proc q).runQue) : PushesOnce s s' e b :=
  ⟨b', hb', Or.inl ⟨hp, hq⟩⟩

theorem runQue_modifyProc {s : State} {p : ProcId} {f : Processor → Processor}
    (hf : (f (s.proc p)).runQue = (s.proc p).runQue) (q : ProcId) :
    ((s.modifyProc p f).proc q).runQue = (s.proc q).runQue := by
  rw [modifyProc_proc]
  split
  · next hq => rw [hq, hf]
  · rfl

theorem own_erase {s : State} (h : Owned s) {c : Caller} {e : SuspendId} {b : Suspension}
    {p : ProcId} {st : WakeStage} (hc : s.call c = some ⟨e, .locked⟩)
    (hb : s.suspension e = some b) (hp : (s.task b.task).processor = some p) :
    PushesOnce s ((s.eraseWaitSet p b.task).setCall c (some ⟨e, st⟩)) e b ∧
      ∀ e', e' ≠ e → ((s.eraseWaitSet p b.task).setCall c (some ⟨e, st⟩)).suspension e'
        = s.suspension e' := by
  have ho := Finset.ne_empty_of_mem (h.caller_mem hc hb)
  obtain rfl : b.processor = p :=
    Option.some.inj (((h.suspensions.ok e b hb).processor ho).symm.trans hp)
  rw [h.eraseWaitSet_eq hc hb]
  split
  · refine ⟨pushesOnce_of_proc { b with owners := b.owners.erase .waitSet } ?_ rfl ?_,
      fun e' he => ?_⟩
    · simp
    · exact runQue_modifyProc (p := b.processor)
        (f := fun P => { P with waitSet := update P.waitSet b.task none }) rfl
    · simp [he]
  · exact ⟨pushesOnce_of_proc b hb rfl fun _ => rfl, fun _ _ => rfl⟩

theorem own_release {s : State} {c : Caller} {e : SuspendId} {b : Suspension}
    (hb : s.suspension e = some b) :
    PushesOnce s ((s.setCall c none).releaseOwner e (.caller c)) e b ∧
      ∀ e', e' ≠ e → ((s.setCall c none).releaseOwner e (.caller c)).suspension e'
        = s.suspension e' := by
  have hb' : (s.setCall c none).suspension e = some b := hb
  by_cases hlast : b.owners.erase (.caller c) = ∅
  · rw [releaseOwner_of_last hb' hlast]
    refine ⟨⟨{ b with owners := ∅, pushes := b.pushes + 1 }, by simp, Or.inr ⟨rfl, fun q => ?_⟩⟩,
      fun e' he => by simp [he]⟩
    rw [modifyProc_proc]
    split
    · next hq => rw [hq]; rfl
    · rfl
  · rw [releaseOwner_of_more hb' hlast]
    exact ⟨pushesOnce_of_proc { b with owners := b.owners.erase (.caller c) } (by simp)
      rfl fun _ => rfl, fun e' he => by simp [he]⟩

theorem Owned.own {s s' : State} (h : Owned s) {c : Caller} {e : SuspendId} {st : WakeStage}
    {b : Suspension} {a : Act} (hc : s.call c = some ⟨e, st⟩) (hb : s.suspension e = some b)
    (ha : a.finishesWakeUp c) (hs : step s a = some s') :
    PushesOnce s s' e b ∧ ∀ e', e' ≠ e → s'.suspension e' = s.suspension e' := by
  have hentry : ∀ {e' st'}, s.call c = some ⟨e', st'⟩ → e' = e := by
    intro e' st' hc'
    rw [hc] at hc'
    cases hc'
    rfl
  rcases ha with rfl | rfl | rfl
  · cases steps_of_step hs with
    | eraseNone hc' hb' hp => exact ⟨pushesOnce_of_proc b hb rfl fun _ => rfl, fun _ _ => rfl⟩
    | erase hc' hb' hp =>
      obtain rfl := hentry hc'
      obtain rfl := Option.some.inj (hb.symm.trans hb')
      exact own_erase h hc' hb hp
  · cases steps_of_step hs with
    | notify hc' =>
      exact ⟨pushesOnce_of_proc b hb rfl (runQue_modifyProc (notifiNewQueCondition_runQue _)),
        fun _ _ => rfl⟩
  · cases steps_of_step hs with
    | release hc' =>
      obtain rfl := hentry hc'
      exact own_release hb

/-! ## Exactly once -/

/-- The owners of a block that was locked, and on which no call is in progress, are gone. -/
theorem SuspensionOk.owners_empty {s : State} {e : SuspendId} {b : Suspension}
    (h : SuspensionOk s e b) (hl : b.locked = true) (hc : ∀ c st, s.call c ≠ some ⟨e, st⟩) :
    b.owners = ∅ := by
  by_contra ho
  obtain ⟨o, hmem⟩ := Finset.nonempty_iff_ne_empty.mpr ho
  cases o with
  | taskPtr => exact h.taskPtr hmem
  | waitSet =>
    obtain ⟨c, hcall⟩ := h.erasing hl hmem
    exact hc c .locked hcall
  | caller c =>
    obtain ⟨st, hcall⟩ := (h.caller c).mp hmem
    exact hc c st hcall

/-- A block that has pushed its task has no owner, so nobody can lock it. -/
theorem SuspensionOk.expired {s : State} {e : SuspendId} {b : Suspension}
    (h : SuspensionOk s e b) (hb : s.suspension e = some b) (hp : b.pushes = 1) :
    (∀ c st, s.call c ≠ some ⟨e, st⟩) ∧ ∀ c s', step s (.wakeLock c e) = some s' → s' = s := by
  have ho : b.owners = ∅ := by
    by_contra ho
    have hpush := h.pushes
    rw [if_neg ho, hp] at hpush
    cases hpush
  refine ⟨fun c st hc => ?_, fun c s' hs => ?_⟩
  · have hmem := (h.caller c).mpr ⟨st, hc⟩
    rw [ho] at hmem
    cases hmem
  · cases steps_of_step hs with
    | lockExpired => rfl
    | lock hb' _ ho' =>
      obtain rfl := Option.some.inj (hb.symm.trans hb')
      exact absurd ho ho'

/--
Each suspension is resumed exactly once, as far as the steps are atomic. `StealsIdle` restricts the
balancer only; a run without it meets the condition whatever the other threads do.
-/
theorem resumedOnce_of_stealsIdle {s : State} (h : scheduler.ReachableBy StealsIdle s) :
    s.ResumedOnce := by
  have how := owned_of_reachableBy h
  have hok := how.suspensions.ok
  refine ⟨fun e b hb => ?_, fun e b hb hl hc => ?_, fun e b hb hl => ?_,
    fun e b hb hp => (hok e b hb).expired hb hp, fun c e st b a s' hc hb ha hs =>
      how.own hc hb ha hs⟩
  · rw [(hok e b hb).pushes]
    split <;> simp
  · rw [(hok e b hb).pushes, if_pos ((hok e b hb).owners_empty hl hc)]
  · rw [(hok e b hb).pushes, if_neg (Finset.ne_empty_of_mem ((hok e b hb).unlocked hl))]

end Nemo.Coroutine
