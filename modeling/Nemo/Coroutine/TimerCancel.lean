import Nemo.Coroutine.TimerFrame

/-!
# `cancel` against the thread of `run()`

The thread of `run()` and any number of threads in `cancel`, cut at every lock, unlock and flag:
`mutex_` and the invoke mutex of each timer have a holder, and a step that locks waits until there
is none. `add` and `reset` are one step each, while nobody holds `mutex_`.

`settled id` records that a `cancel` of `id` returned `false` and `id` was not reset since. Then its
callback must not be called. `cancel` stores `false` into `canceled_`, so nothing stops `run()` from
taking the timer out after `cancel` has released the invoke mutex and before it takes `mutex_`. If
that does not happen the answer of `cancel` is right.
-/

namespace Nemo.Coroutine.Canceling

open Infra RoutineSyncTimer
open Function (update)

/-- Where the thread of `run()` is. -/
inductive RunPc
  /-- before it takes `mutex_`, or inside `cond_.wait_for` -/
  | outside
  /-- head of the loop -/
  | examining
  /-- the first timer is due, before `try_lock` -/
  | due (id : TimerPtr)
  /-- before `eraseTimerId` -/
  | taking (id : TimerPtr) (locked : Bool)
  /-- before `uniqueLock.unlock()` -/
  | unlocking (id : TimerPtr)
  /-- in `invoke()`, before `canceled_` is tested -/
  | testing (id : TimerPtr)
  /-- in `invoke()`, before `done_ = true` -/
  | settingDone (id : TimerPtr)
  /-- in `invoke()`, before `cb_()` -/
  | calling (id : TimerPtr)
  /-- before `uniqueLock.lock()` -/
  | relocking (id : TimerPtr)
  /-- before `invokeUniqueLock` is destroyed -/
  | releasing (id : TimerPtr)
  deriving DecidableEq

/-- Where a thread is in `cancel`. -/
inductive CancelPc
  /-- before it takes the invoke mutex -/
  | enter
  /-- before `canceled_` is stored -/
  | storing
  /-- before the invoke mutex is released -/
  | leaving
  /-- before it takes `mutex_` -/
  | between
  /-- before `eraseTimerId` -/
  | erasing
  /-- before `done()` -/
  | reading
  /-- before `mutex_` is released -/
  | returning (done : Bool)
  deriving DecidableEq

/-- Who holds a mutex. -/
inductive Holder
  | run
  | thread (k : Nat)
  deriving DecidableEq

structure State where
  timer : RoutineSyncTimer := {}
  now : TimePoint := 0
  run : RunPc := .outside
  cancels : Nat → Option (TimerPtr × CancelPc) := fun _ => none
  mutex : Option Holder := none
  invokeMutex : TimerPtr → Option Holder := fun _ => none
  settled : TimerPtr → Bool := fun _ => false

inductive Action
  /-- the next step of the thread of `run()` -/
  | run
  /-- thread `k` calls `cancel(id)` -/
  | cancel (k : Nat) (id : TimerPtr)
  /-- the next step of thread `k` -/
  | thread (k : Nat)
  | add (tp : TimePoint) (cb : Callback)
  | reset (id : TimerPtr) (tp : TimePoint)
  | advance (tp : TimePoint)

/-- The timer with the wrapper of `id` rewritten. -/
def rewrap (t : RoutineSyncTimer) (id : TimerPtr) (f : TimerId → TimerId) : RoutineSyncTimer :=
  { t with timer := update t.timer id (f (t.timer id)) }

/-- `cond_.wait_for` releases `mutex_`. -/
def wait (s : State) : State := { s with run := .outside, mutex := none }

def runStep (s : State) : Option State :=
  match s.run with
  | .outside => if s.mutex = none then some { s with run := .examining, mutex := some .run } else none
  | .examining =>
    match s.timer.timerIds with
    | id :: _ => if s.now ≥ s.timer.tpOf id then some { s with run := .due id } else some (wait s)
    | [] => some (wait s)
  | .due id =>
    if s.invokeMutex id = none then
      some { s with run := .taking id true, invokeMutex := update s.invokeMutex id (some .run) }
    else some { s with run := .taking id false }
  | .taking id locked =>
    some { s with
      timer := (s.timer.eraseTimerId id).2
      run := if locked then .unlocking id else .examining }
  | .unlocking id => some { s with run := .testing id, mutex := none }
  | .testing id =>
    some { s with run := if (s.timer.timer id).canceled then .relocking id else .settingDone id }
  | .settingDone id =>
    some { s with timer := rewrap s.timer id TimerId.setDone, run := .calling id }
  | .calling id => some { s with run := .relocking id }
  | .relocking id =>
    if s.mutex = none then some { s with run := .releasing id, mutex := some .run } else none
  | .releasing id =>
    some { s with run := .examining, invokeMutex := update s.invokeMutex id none }

/-- Thread `k` goes on in `cancel(id)`. -/
def goTo (s : State) (k : Nat) (id : TimerPtr) (pc : CancelPc) : State :=
  { s with cancels := update s.cancels k (some (id, pc)) }

@[simp, grind =] theorem goTo_cancels (s : State) (k : Nat) (id : TimerPtr) (pc : CancelPc)
    (j : Nat) :
    (goTo s k id pc).cancels j = if j = k then some (id, pc) else s.cancels j :=
  Function.update_apply ..

@[simp, grind =] theorem goTo_mutex (s : State) (k : Nat) (id : TimerPtr) (pc : CancelPc) :
    (goTo s k id pc).mutex = s.mutex := rfl

@[simp, grind =] theorem goTo_invokeMutex (s : State) (k : Nat) (id : TimerPtr) (pc : CancelPc) :
    (goTo s k id pc).invokeMutex = s.invokeMutex := rfl

@[simp, grind =] theorem goTo_run (s : State) (k : Nat) (id : TimerPtr) (pc : CancelPc) :
    (goTo s k id pc).run = s.run := rfl

@[simp, grind =] theorem goTo_timer (s : State) (k : Nat) (id : TimerPtr) (pc : CancelPc) :
    (goTo s k id pc).timer = s.timer := rfl

@[simp, grind =] theorem goTo_settled (s : State) (k : Nat) (id : TimerPtr) (pc : CancelPc) :
    (goTo s k id pc).settled = s.settled := rfl

@[simp, grind =] theorem rewrap_timerIds (t : RoutineSyncTimer) (id : TimerPtr)
    (f : TimerId → TimerId) : (rewrap t id f).timerIds = t.timerIds := rfl

@[simp, grind =] theorem rewrap_made (t : RoutineSyncTimer) (id : TimerPtr)
    (f : TimerId → TimerId) : (rewrap t id f).made = t.made := rfl

def cancelStep (s : State) (k : Nat) (id : TimerPtr) : CancelPc → Option State
  | .enter =>
    if s.invokeMutex id = none then
      some { goTo s k id .storing with
        invokeMutex := update s.invokeMutex id (some (.thread k)) }
    else none
  | .storing => some { goTo s k id .leaving with timer := rewrap s.timer id TimerId.cancel }
  | .leaving => some { goTo s k id .between with invokeMutex := update s.invokeMutex id none }
  | .between =>
    if s.mutex = none then some { goTo s k id .erasing with mutex := some (.thread k) } else none
  | .erasing => some { goTo s k id .reading with timer := (s.timer.eraseTimerId id).2 }
  | .reading => some (goTo s k id (.returning (s.timer.timer id).done))
  | .returning done =>
    some { s with
      cancels := update s.cancels k none
      mutex := none
      settled := if done then s.settled else update s.settled id true }

def step (s : State) : Action → Option State
  | .run => runStep s
  | .cancel k id =>
    if id < s.timer.made ∧ s.cancels k = none then some (goTo s k id .enter) else none
  | .thread k =>
    match s.cancels k with
    | some (id, pc) => cancelStep s k id pc
    | none => none
  | .add tp cb => if s.mutex = none then some { s with timer := (s.timer.add tp cb).2 } else none
  | .reset id tp =>
    if s.mutex = none ∧ id < s.timer.made then
      some { s with
        timer := (s.timer.reset id tp).2
        settled := update s.settled id false }
    else none
  | .advance tp => if s.now ≤ tp then some { s with now := tp } else none

def system : Lts State Action where
  init := {}
  step := step

/-- No callback is about to be called after a `cancel` of its timer has returned `false`. -/
def Decisive (s : State) : Prop := ∀ id, s.run = .calling id → s.settled id = false

/-- `run()` does not lock a timer that a `cancel` has released and not yet erased. -/
def NoTakeBetween (s : State) (a : Action) : Prop :=
  a = .run → ∀ id, s.run = .due id → s.invokeMutex id = none →
    ∀ k, s.cancels k ≠ some (id, .between)

/-! ## The locks -/

/-- The places at which the thread of `run()` holds `mutex_`. -/
@[grind] def RunPc.inMutex : RunPc → Bool
  | .examining | .due _ | .taking _ _ | .unlocking _ | .releasing _ => true
  | _ => false

/-- The timer whose invoke mutex it holds. -/
@[grind] def RunPc.holds : RunPc → Option TimerPtr
  | .taking id true | .unlocking id | .testing id | .settingDone id | .calling id | .relocking id
  | .releasing id => some id
  | _ => none

/-- The timer whose callback it may still call without another examination. -/
@[grind] def RunPc.toCall : RunPc → Option TimerPtr
  | .taking id true | .unlocking id | .testing id | .settingDone id | .calling id => some id
  | _ => none

theorem RunPc.holds_of_toCall {pc : RunPc} {id : TimerPtr} (h : pc.toCall = some id) :
    pc.holds = some id := by
  cases pc with
  | taking id locked => cases locked <;> exact h
  | relocking id => cases h
  | releasing id => cases h
  | _ => exact h

/-- The places at which a `cancel` holds `mutex_`. -/
@[grind] def CancelPc.inMutex : CancelPc → Bool
  | .erasing | .reading | .returning _ => true
  | _ => false

/-- The places at which it holds the invoke mutex. -/
@[grind] def CancelPc.holds : CancelPc → Bool
  | .storing | .leaving => true
  | _ => false

/-- The places behind the invoke mutex. -/
@[grind] def CancelPc.released : CancelPc → Bool
  | .between | .erasing | .reading | .returning _ => true
  | _ => false

/-- The places behind `eraseTimerId`. -/
@[grind] def CancelPc.erased : CancelPc → Bool
  | .reading | .returning _ => true
  | _ => false

attribute [local grind =] Function.update_apply

/-- Who is at a place behind a lock holds it. -/
structure Locks (s : State) : Prop where
  runMutex : s.run.inMutex = true → s.mutex = some .run
  runInvoke : ∀ id, s.run.holds = some id → s.invokeMutex id = some .run
  threadMutex : ∀ k id pc, s.cancels k = some (id, pc) → pc.inMutex = true →
    s.mutex = some (.thread k)
  threadInvoke : ∀ k id pc, s.cancels k = some (id, pc) → pc.holds = true →
    s.invokeMutex id = some (.thread k)

/-- While the thread of `run()` holds `mutex_`, no `cancel` does. -/
theorem Locks.not_inMutex {s : State} (h : Locks s) (hr : s.run.inMutex = true) (k : Nat)
    (id : TimerPtr) (pc : CancelPc) (hk : s.cancels k = some (id, pc)) : pc.inMutex = false := by
  have hm := h.threadMutex k id pc hk
  rw [h.runMutex hr] at hm
  cases hpc : pc.inMutex with
  | false => rfl
  | true => cases hm hpc

theorem locks_runStep {s s' : State} (h : Locks s) (hs : runStep s = some s') : Locks s' := by
  obtain ⟨h1, h2, h3, h4⟩ := h
  unfold runStep at hs
  cases hr : s.run with
  | outside =>
    simp only [hr] at hs h1 h2
    split at hs
    · cases hs
      exact ⟨fun _ => rfl, nofun, by grind, h4⟩
    · cases hs
  | examining =>
    have hwait : Locks (wait s) := by
      have hm := h1 (by rw [hr]; rfl)
      exact ⟨nofun, nofun, by grind [wait], h4⟩
    simp only [hr] at hs h1 h2
    split at hs
    · split at hs
      · cases hs
        exact ⟨fun _ => h1 rfl, nofun, h3, h4⟩
      · cases hs
        exact hwait
    · cases hs
      exact hwait
  | due id =>
    simp only [hr] at hs h1 h2
    split at hs
    · cases hs
      exact ⟨fun _ => h1 rfl, by grind, h3, by grind⟩
    · cases hs
      exact ⟨fun _ => h1 rfl, nofun, h3, h4⟩
  | taking id locked =>
    simp only [hr] at hs h1 h2
    cases hs
    exact ⟨fun _ => h1 rfl, by grind, h3, h4⟩
  | unlocking id =>
    simp only [hr] at hs h1 h2
    cases hs
    exact ⟨nofun, h2, by grind, h4⟩
  | testing id =>
    simp only [hr] at hs h1 h2
    cases hs
    exact ⟨by grind, by grind, h3, h4⟩
  | settingDone id =>
    simp only [hr] at hs h1 h2
    cases hs
    exact ⟨nofun, h2, h3, h4⟩
  | calling id =>
    simp only [hr] at hs h1 h2
    cases hs
    exact ⟨nofun, h2, h3, h4⟩
  | relocking id =>
    simp only [hr] at hs h1 h2
    split at hs
    · cases hs
      exact ⟨fun _ => rfl, h2, by grind, h4⟩
    · cases hs
  | releasing id =>
    simp only [hr] at hs h1 h2
    cases hs
    exact ⟨fun _ => h1 rfl, nofun, h3, by grind⟩

theorem locks_cancelStep {s s' : State} (h : Locks s) {k : Nat} {id : TimerPtr} {pc : CancelPc}
    (hk : s.cancels k = some (id, pc)) (hs : cancelStep s k id pc = some s') : Locks s' := by
  obtain ⟨h1, h2, h3, h4⟩ := h
  unfold cancelStep at hs
  cases pc with
  | enter =>
    simp only at hs
    split at hs
    · cases hs
      exact ⟨h1, by grind, by grind, by grind⟩
    · cases hs
  | storing =>
    cases hs
    exact ⟨h1, h2, by grind, by grind⟩
  | leaving =>
    cases hs
    exact ⟨h1, by grind, by grind, by grind⟩
  | between =>
    simp only at hs
    split at hs
    · cases hs
      exact ⟨by grind, h2, by grind, by grind⟩
    · cases hs
  | erasing =>
    cases hs
    exact ⟨h1, h2, by grind, by grind⟩
  | reading =>
    cases hs
    exact ⟨h1, h2, by grind, by grind⟩
  | returning done =>
    cases hs
    exact ⟨by grind, h2, by grind, by grind⟩

/-! ## What is out of reach of the callback -/

/-- What `run()` cannot call any more: the timers that a `cancel` has released or that are settled. -/
structure Out (s : State) : Prop where
  ordered : s.timer.Ordered
  made : ∀ k id pc, s.cancels k = some (id, pc) → id < s.timer.made
  released : ∀ k id pc, s.cancels k = some (id, pc) → pc.released = true →
    s.run.toCall ≠ some id
  erased : ∀ k id pc, s.cancels k = some (id, pc) → pc.erased = true → id ∉ s.timer.timerIds
  settled : ∀ id, s.settled id = true →
    id < s.timer.made ∧ id ∉ s.timer.timerIds ∧ s.run ≠ .due id ∧ s.run.toCall ≠ some id

theorem out_runStep {s s' : State} (hl : Locks s) (h : Out s) (hp : NoTakeBetween s .run)
    (hs : runStep s = some s') : Out s' := by
  have hmutex := hl.not_inMutex
  obtain ⟨h0, hm, h1, h2, h3⟩ := h
  unfold runStep at hs
  cases hr : s.run with
  | outside =>
    simp only [hr] at hs h1 h3
    split at hs
    · cases hs
      exact ⟨h0, hm, nofun, h2, by grind⟩
    · cases hs
  | examining =>
    have hwait : Out (wait s) := ⟨h0, hm, nofun, h2, fun id hid => by
      obtain ⟨ha, hb, -, -⟩ := h3 id hid
      exact ⟨ha, hb, nofun, nofun⟩⟩
    simp only [hr] at hs h1 h3
    split at hs
    · split at hs
      · cases hs
        exact ⟨h0, hm, nofun, h2, by grind⟩
      · cases hs
        exact hwait
    · cases hs
      exact hwait
  | due id =>
    have hin := hmutex (by rw [hr]; rfl)
    have hbetween := hp rfl id hr
    simp only [hr] at hs h1 h3
    split at hs
    · next hnone =>
      cases hs
      refine ⟨h0, hm, ?_, h2, by grind⟩
      -- a `cancel` behind the invoke mutex would hold `mutex_`, or be between the two
      intro k id' pc hk hpc hcall
      obtain rfl : id = id' := by grind
      have hnot := hin k id pc hk
      have hne := hbetween hnone k
      cases pc <;> grind
    · cases hs
      exact ⟨h0, hm, nofun, h2, by grind⟩
  | taking id locked =>
    simp only [hr] at hs h1 h3
    cases hs
    have hsub : ∀ b, b ∈ (s.timer.eraseTimerId id).2.timerIds → b ∈ s.timer.timerIds :=
      fun b hb => ((mem_eraseTimerId h0).mp hb).1
    refine ⟨h0.eraseTimerId id, hm, by grind, fun k id' pc hk hpc hb => ?_, fun id' hid' => ?_⟩
    · exact h2 k id' pc hk hpc (hsub id' hb)
    · obtain ⟨ha, hb, -, hd⟩ := h3 id' hid'
      exact ⟨ha, fun hb' => hb (hsub id' hb'), by grind, by grind⟩
  | unlocking id =>
    simp only [hr] at hs h1 h3
    cases hs
    exact ⟨h0, hm, h1, h2, by grind⟩
  | testing id =>
    simp only [hr] at hs h1 h3
    cases hs
    exact ⟨h0, hm, by grind, h2, by grind⟩
  | settingDone id =>
    simp only [hr] at hs h1 h3
    cases hs
    exact ⟨h0.update id _ fun _ => rfl, hm, h1, h2, by grind⟩
  | calling id =>
    simp only [hr] at hs h1 h3
    cases hs
    exact ⟨h0, hm, nofun, h2, by grind⟩
  | relocking id =>
    simp only [hr] at hs h1 h3
    split at hs
    · cases hs
      exact ⟨h0, hm, nofun, h2, by grind⟩
    · cases hs
  | releasing id =>
    simp only [hr] at hs h1 h3
    cases hs
    exact ⟨h0, hm, nofun, h2, by grind⟩

theorem out_cancelStep {s s' : State} (hl : Locks s) (h : Out s) {k : Nat} {id : TimerPtr}
    {pc : CancelPc} (hk : s.cancels k = some (id, pc)) (hs : cancelStep s k id pc = some s') :
    Out s' := by
  have hmade := h.made k id pc hk
  obtain ⟨h0, hm, h1, h2, h3⟩ := h
  unfold cancelStep at hs
  cases pc with
  | enter =>
    simp only at hs
    split at hs
    · cases hs
      exact ⟨h0, by grind, by grind, by grind, h3⟩
    · cases hs
  | storing =>
    cases hs
    exact ⟨h0.update id _ fun _ => rfl, by grind, by grind,
      by grind, h3⟩
  | leaving =>
    cases hs
    -- the thread of `run()` does not hold the invoke mutex
    have hnot : s.run.toCall ≠ some id := by
      intro hcall
      have hrun := hl.runInvoke id (RunPc.holds_of_toCall hcall)
      rw [hl.threadInvoke k id _ hk rfl] at hrun
      cases hrun
    exact ⟨h0, by grind, by grind, by grind, h3⟩
  | between =>
    simp only at hs
    split at hs
    · cases hs
      exact ⟨h0, by grind, by grind, by grind, h3⟩
    · cases hs
  | erasing =>
    cases hs
    have hmem : ∀ b, b ∈ (s.timer.eraseTimerId id).2.timerIds ↔
        b ∈ s.timer.timerIds ∧ s.timer.tpOf b ≠ s.timer.tpOf id := fun b => mem_eraseTimerId h0
    have hsame : (s.timer.eraseTimerId id).2.made = s.timer.made := rfl
    exact ⟨h0.eraseTimerId id, by grind, by grind, by grind, by grind⟩
  | reading =>
    cases hs
    exact ⟨h0, by grind, by grind, by grind, h3⟩
  | returning done =>
    cases hs
    have hdue : s.run ≠ .due id := by
      intro hr
      have hrun := hl.runMutex (by rw [hr]; rfl)
      rw [hl.threadMutex k id _ hk rfl] at hrun
      cases hrun
    have hcall := h1 k id _ hk rfl
    have hout := h2 k id _ hk rfl
    refine ⟨h0, by grind, by grind, by grind, fun b hb => ?_⟩
    cases done with
    | true => exact h3 b hb
    | false =>
      by_cases heq : b = id
      · subst heq
        exact ⟨hmade, hout, hdue, hcall⟩
      · refine h3 b ?_
        have hb' : update s.settled id true b = true := hb
        rwa [Function.update_of_ne heq] at hb'

/-- The invariant holds along every run in which `run()` takes no timer between the two locks. -/
theorem inv_of_reachableBy {s : State} (h : system.ReachableBy NoTakeBetween s) :
    Locks s ∧ Out s := by
  refine h.invariant (I := fun s => Locks s ∧ Out s) ?_ ?_
  · exact ⟨⟨nofun, nofun, nofun, nofun⟩, ⟨⟨.nil, nofun⟩, nofun, nofun, nofun, nofun⟩⟩
  · rintro s a s' ⟨hl, h⟩ hp hstep
    cases a with
    | run => exact ⟨locks_runStep hl hstep, out_runStep hl h hp hstep⟩
    | cancel k id =>
      unfold system step at hstep
      dsimp only at hstep
      split at hstep
      · cases hstep
        obtain ⟨h1, h2, h3, h4⟩ := hl
        obtain ⟨g0, gm, g1, g2, g3⟩ := h
        exact ⟨⟨h1, h2, by grind, by grind⟩,
          ⟨g0, by grind, by grind, by grind, g3⟩⟩
      · cases hstep
    | thread k =>
      unfold system step at hstep
      dsimp only at hstep
      split at hstep
      · next id pc hk => exact ⟨locks_cancelStep hl hk hstep, out_cancelStep hl h hk hstep⟩
      · cases hstep
    | add tp cb =>
      unfold system step at hstep
      dsimp only at hstep
      split at hstep
      · next hnone =>
        cases hstep
        have hin := hl.threadMutex
        obtain ⟨g0, gm, g1, g2, g3⟩ := h
        have hmem : ∀ b, b ∈ (s.timer.add tp cb).2.timerIds → b ∈ s.timer.timerIds ∨
            b = s.timer.made := fun b hb => ((mem_add g0).mp hb).imp_right And.left
        have hmade : (s.timer.add tp cb).2.made = s.timer.made + 1 := rfl
        refine ⟨⟨hl.runMutex, hl.runInvoke, hl.threadMutex, hl.threadInvoke⟩,
          ⟨g0.add tp cb, by grind, g1, ?_, by grind⟩⟩
        intro k id pc hk hpc
        have hheld := hin k id pc hk (by cases pc <;> first | rfl | cases hpc)
        rw [hnone] at hheld
        cases hheld
      · cases hstep
    | reset id tp =>
      unfold system step at hstep
      dsimp only at hstep
      split at hstep
      · next hcond =>
        obtain ⟨hnone, hid⟩ := hcond
        cases hstep
        have hin := hl.threadMutex
        obtain ⟨g0, gm, g1, g2, g3⟩ := h
        obtain ⟨hord, hmade⟩ := g0.reset hid tp
        have hmem : ∀ b, b ∈ (s.timer.reset id tp).2.timerIds → b ∈ s.timer.timerIds ∨ b = id :=
          fun b hb => mem_of_mem_reset g0 hid hb
        refine ⟨⟨hl.runMutex, hl.runInvoke, hl.threadMutex, hl.threadInvoke⟩,
          ⟨hord, by grind, g1, ?_, by grind⟩⟩
        intro k id pc hk hpc
        have hheld := hin k id pc hk (by cases pc <;> first | rfl | cases hpc)
        rw [hnone] at hheld
        cases hheld
      · cases hstep
    | advance tp =>
      unfold system step at hstep
      dsimp only at hstep
      split at hstep
      · cases hstep
        exact ⟨⟨hl.runMutex, hl.runInvoke, hl.threadMutex, hl.threadInvoke⟩,
          ⟨h.ordered, h.made, h.released, h.erased, h.settled⟩⟩
      · cases hstep

/--
**`cancel` is decisive** in every run in which `run()` does not lock a timer between the two locks
of a `cancel` of it.
-/
theorem decisive_of_noTakeBetween {s : State} (h : system.ReachableBy NoTakeBetween s) :
    Decisive s := by
  intro id hr
  obtain ⟨-, hout⟩ := inv_of_reachableBy h
  cases hs : s.settled id with
  | false => rfl
  | true =>
    obtain ⟨-, -, -, hcall⟩ := hout.settled id hs
    rw [hr] at hcall
    exact absurd rfl hcall

/-- A state in which `try_lock` would not take a timer. -/
def noTake (s : State) : Bool :=
  match s.run with
  | .due id => (s.invokeMutex id).isSome
  | _ => true

theorem noTakeBetween_of_noTake {s : State} {a : Action} (h : noTake s = true) :
    NoTakeBetween s a := by
  rintro - id hr hnone
  rw [noTake, hr] at h
  dsimp only at h
  rw [hnone] at h
  cases h

/-- `run()` takes the timer out while `cancel` holds its invoke mutex: no callback is called. -/
theorem decisive_tryLockFails : ∃ s, system.runBy (fun s _ => noTake s = true) system.init
    [.add 0 0, .cancel 0 0, .thread 0, .thread 0, .run, .run, .run, .run, .run, .thread 0, .thread 0,
      .thread 0, .thread 0, .thread 0] = some s ∧ s.settled 0 = true ∧ Decisive s := by
  refine ⟨_, rfl, rfl, ?_⟩
  exact decisive_of_noTakeBetween ((Lts.ReachableBy.of_runBy .init
    (show system.runBy (fun s _ => noTake s = true) system.init
      [.add 0 0, .cancel 0 0, .thread 0, .thread 0, .run, .run, .run, .run, .run, .thread 0,
        .thread 0, .thread 0, .thread 0, .thread 0] = some _ from rfl)).mono
    fun _ _ => noTakeBetween_of_noTake)

/-- `run()` takes the timer out between the two locks, and calls its callback after `cancel` has
returned `false`. -/
theorem not_decisive : ¬ ∀ s, system.Reachable s → Decisive s := by
  intro h
  have hs := h _ (Lts.reachable_of_run (show system.run system.init
    [.add 0 0, .cancel 0 0, .thread 0, .thread 0, .thread 0, .run, .run, .run, .run, .run,
      .thread 0, .thread 0, .thread 0, .thread 0, .run, .run] = some _ from rfl))
  exact absurd (hs 0 rfl) (by decide)

end Nemo.Coroutine.Canceling
