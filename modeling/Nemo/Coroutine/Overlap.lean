import Nemo.Coroutine.Resume

/-!
# Operations without a lock

The steps of `scheduler` are atomic. The locks make most of them so. Three operations have no lock
in common with the others on the same container:

* `TaskPointerDeleter` appends to `runQue_` with `emplaceBackUnsafe`, without a lock
* `wakeUpBySelf` reads `runQue_.sizeUnsafe()` under `mutex_`; `runQue_` has its own mutex
* `wakeUpBySelf` erases from `waitSet_` under `mutex_`, and `suspendBySelf` inserts under
  `waitSetMutex_`

Here each of these has a beginning and an end. What follows is undefined once another thread gets
at the same container in between, unless both only read (`raced`). All other operations stay
points: two of them never overlap, and one that overlaps an operation from the list above has a
point inside it.
-/

namespace Nemo.Coroutine

open Infra

/-! ## Accesses -/

/-- The containers that are reached under different locks, or under none. -/
inductive Shared
  | runQue (p : ProcId)
  | waitSet (p : ProcId)
  deriving DecidableEq, Repr

structure Access where
  object : Shared
  writes : Bool
  deriving DecidableEq, Repr

def Access.read (o : Shared) : Access := ⟨o, false⟩

def Access.write (o : Shared) : Access := ⟨o, true⟩

def Access.Conflicts (u v : Access) : Prop :=
  u.object = v.object ∧ (u.writes = true ∨ v.writes = true)

instance (u v : Access) : Decidable (u.Conflicts v) := inferInstanceAs (Decidable (_ ∧ _))

theorem Access.Conflicts.symm {u v : Access} (h : u.Conflicts v) : v.Conflicts u :=
  ⟨h.1.symm, h.2.symm⟩

/-- `runQue_.popFront(run)`. An empty queue is only looked at. -/
def State.popFrontAccess (s : State) (p : ProcId) : Access :=
  if (s.proc p).runQue.isEmpty then .read (.runQue p) else .write (.runQue p)

/-- The processor from whose `waitSet_` the call of `c` erases next. -/
def State.erasesAt (s : State) (c : Caller) : Option ProcId :=
  match s.call c with
  | some ⟨e, .locked⟩ => (s.suspension e).bind fun b => (s.task b.task).processor
  | _ => none

/-- The pushes of `TaskPointerDeleter` in a step. -/
def State.pushAccesses (s : State) (a : Act) : List Access :=
  (s.deleterRuns a).toList.map fun p => .write (.runQue p)

/-- What a step does to the shared containers. -/
def State.touches (s : State) : Act → List Access
  | .process p =>
    match (s.proc p).pc with
    | .acquire | .retry | .takeNext => [s.popFrontAccess p]
    | .pushNew _ => if (s.proc p).inHand.isEmpty then [] else [.write (.runQue p)]
    | .switching =>
      -- `runQue_.isEmpty()`, in every case but `BLOCK`
      if (s.proc p).runningTask.map (fun t => (s.task t).state) = some .block then []
      else [.read (.runQue p)]
    | .requeue => [.write (.runQue p)]
    | _ => []
  | .suspend p =>
    match (s.proc p).runningTask.bind fun t => (s.task t).processor with
    | some q => [.write (.waitSet q), s.popFrontAccess q]
    | none => []
  | .wakeErase c =>
    match s.erasesAt c with
    | some p => [.write (.waitSet p), .read (.runQue p)] ++ s.pushAccesses (.wakeErase c)
    | none => []
  | .wakeRelease c => s.pushAccesses (.wakeRelease c)
  | .stealRun => s.stealing.toList.map fun x => .write (.runQue x.1)
  | _ => []

/-! ## Operations in progress -/

/-- The thread that takes a step. The balancer and the threads that add tasks are not named:
they take no part in the operations that have a beginning and an end. -/
def Act.thread : Act → Option Caller
  | .process p | .spurious p | .suspend p | .yield p | .finish p _ => some (.processor p)
  | .wakeLock c _ | .wakeErase c | .wakeNotify c | .wakeRelease c => some c
  | _ => none

/-- An operation in progress: its thread, the processor whose `mutex_` it holds, and what it is
at. -/
structure Section where
  thread : Caller
  mutex : Option ProcId
  access : Access
  deriving DecidableEq, Repr

/-- `waitSet_.erase(task)` in `wakeUpBySelf`. -/
def Section.erase (c : Caller) (p : ProcId) : Section := ⟨c, some p, .write (.waitSet p)⟩

/-- `runQue_.sizeUnsafe()` in `wakeUpBySelf`. -/
def Section.size (c : Caller) (p : ProcId) : Section := ⟨c, some p, .read (.runQue p)⟩

/-- `runQue_.emplaceBackUnsafe` in `TaskPointerDeleter`. -/
def Section.push (c : Caller) (p : ProcId) : Section := ⟨c, none, .write (.runQue p)⟩

/-- The operation that begins with a step and goes on after it. -/
def State.opens (s : State) : Act → Option Section
  | .wakeErase c => (s.erasesAt c).map (.size c)
  | .wakeRelease c => (s.deleterRuns (.wakeRelease c)).map (.push c)
  | _ => none

/-- The state of the scheduler and the operations in progress. -/
structure Overlapping where
  base : State := {}
  busy : List Section := []
  raced : Bool := false

inductive Event
  | act (a : Act)
  /-- `wakeUpBySelf` takes `mutex_` and begins to erase; the step `wakeErase` ends that -/
  | enter (c : Caller)
  /-- the operation that a step of `c` has begun ends, and with it the section under `mutex_` -/
  | leave (c : Caller)
  /-- the balancer calls `runQue_.size()`, in `runnableTaskCount()` -/
  | count (p : ProcId)
  deriving DecidableEq, Repr

def Event.thread : Event → Option Caller
  | .act a => a.thread
  | .enter c | .leave c => some c
  | .count _ => none

def Event.act? : Event → Option Act
  | .act a => some a
  | _ => none

namespace Overlapping

def idle (x : Overlapping) (c : Caller) : Bool := x.busy.all fun y => y.thread ≠ c

def mutexFree (x : Overlapping) (p : ProcId) : Bool := x.busy.all fun y => y.mutex ≠ some p

/-- The operations of the other threads. -/
def others (x : Overlapping) (c : Option Caller) : List Section :=
  x.busy.filter fun y => c ≠ some y.thread

def touches (x : Overlapping) : Event → List Access
  | .act a => x.base.touches a
  | .enter c => (x.base.erasesAt c).toList.map fun p => .write (.waitSet p)
  | .leave _ => []
  | .count p => [.read (.runQue p)]

/-- A thread that is inside an operation only ends it. -/
def ready (x : Overlapping) : Act → Bool
  | .wakeErase c => (x.base.erasesAt c).isNone || !x.idle c
  | a => a.thread.all x.idle

def next (x : Overlapping) : Event → Option Overlapping
  | .act a =>
    if x.ready a then
      (Coroutine.step x.base a).map fun s =>
        { x with base := s, busy := (x.base.opens a).toList ++ x.others a.thread }
    else none
  | .enter c =>
    match x.base.erasesAt c with
    | some p =>
      if x.idle c && x.mutexFree p then some { x with busy := .erase c p :: x.busy } else none
    | none => none
  | .leave c =>
    if !x.idle c && (x.base.erasesAt c).isNone then some { x with busy := x.others (some c) }
    else none
  | .count _ => some x

/-- Another thread is at a container that the event gets at. -/
def Overlaps (x : Overlapping) (ev : Event) : Prop :=
  ∃ y ∈ x.others ev.thread, ∃ v ∈ x.touches ev, y.access.Conflicts v

instance (x : Overlapping) (ev : Event) : Decidable (x.Overlaps ev) :=
  inferInstanceAs (Decidable (∃ y ∈ x.others ev.thread, ∃ v ∈ x.touches ev, y.access.Conflicts v))

/-- Nothing is said about what comes after a race. -/
def step (x : Overlapping) (ev : Event) : Option Overlapping :=
  if x.raced then none
  else (x.next ev).map fun x' => { x' with raced := decide (x.Overlaps ev) }

end Overlapping

def overlapping : Lts Overlapping Event where
  init := {}
  step := Overlapping.step

/-- No event gets at a container that another thread is at, and the balancer leaves running tasks
alone. -/
def Apart (x : Overlapping) (ev : Event) : Prop :=
  ¬ x.Overlaps ev ∧ ∀ a ∈ ev.act?, StealsIdle x.base a

instance : ∀ x ev, Decidable (Apart x ev) := fun x ev =>
  inferInstanceAs (Decidable (¬ x.Overlaps ev ∧ ∀ a ∈ ev.act?, StealsIdle x.base a))

/-! ## Back to the atomic steps -/

/-- An event is a step of the scheduler, or changes nothing but the operations in progress. -/
theorem base_of_step {x x' : Overlapping} {ev : Event} (h : x.step ev = some x') :
    x'.raced = decide (x.Overlaps ev) ∧
      (x'.base = x.base ∨ ∃ a, ev = .act a ∧ step x.base a = some x'.base) := by
  unfold Overlapping.step at h
  split at h
  · cases h
  obtain ⟨y, hy, rfl⟩ := Option.map_eq_some_iff.mp h
  refine ⟨rfl, ?_⟩
  cases ev with
  | act a =>
    simp only [Overlapping.next] at hy
    split at hy
    · obtain ⟨s, hs, rfl⟩ := Option.map_eq_some_iff.mp hy
      exact Or.inr ⟨a, rfl, hs⟩
    · cases hy
  | enter c =>
    simp only [Overlapping.next] at hy
    split at hy
    · split at hy <;> cases hy
      exact Or.inl rfl
    · cases hy
  | leave c =>
    simp only [Overlapping.next] at hy
    split at hy <;> cases hy
    exact Or.inl rfl
  | count p =>
    cases hy
    exact Or.inl rfl

/-- The states of a run without overlap are states of the atomic system. -/
theorem base_of_reachableBy {x : Overlapping} (h : overlapping.ReachableBy Apart x) :
    scheduler.ReachableBy StealsIdle x.base := by
  refine h.of_stutter (M := scheduler) Overlapping.base rfl fun x ev y hq hs => ?_
  rcases (base_of_step hs).2 with he | ⟨a, rfl, ha⟩
  · exact Or.inl he
  · exact Or.inr ⟨a, hq.2 a rfl, ha⟩

theorem not_raced_of_reachableBy {x : Overlapping} (h : overlapping.ReachableBy Apart x) :
    x.raced = false :=
  h.invariant (I := fun x => x.raced = false) rfl fun _ _ _ _ hq hs => by
    rw [(base_of_step hs).1, decide_eq_false hq.1]

/-! ## What is in progress -/

/-- No two operations in progress are at one container, unless both only read. -/
def Overlapping.Separate (x : Overlapping) : Prop :=
  x.busy.Pairwise fun y z => ¬ y.access.Conflicts z.access

theorem access_mem_touches {s : State} {a : Act} {y : Section} (h : s.opens a = some y) :
    y.access ∈ s.touches a := by
  cases a with
  | wakeErase c =>
    obtain ⟨p, hp, rfl⟩ := Option.map_eq_some_iff.mp h
    simp [State.touches, hp, Section.size]
  | wakeRelease c =>
    obtain ⟨p, hp, rfl⟩ := Option.map_eq_some_iff.mp h
    simp [State.touches, State.pushAccesses, hp, Section.push]
  | _ => cases h

/-- An operation that begins without an overlap joins the others. -/
theorem separate_cons {x : Overlapping} {ev : Event} {y : Section} (h : x.Separate)
    (hev : ¬ x.Overlaps ev) (hy : y.access ∈ x.touches ev) :
    (y :: x.others ev.thread).Pairwise fun y z => ¬ y.access.Conflicts z.access :=
  List.pairwise_cons.mpr
    ⟨fun z hz hc => hev ⟨z, hz, y.access, hy, hc.symm⟩, h.sublist List.filter_sublist⟩

theorem separate_step {x x' : Overlapping} {ev : Event} (h : x.Separate)
    (hev : ¬ x.Overlaps ev) (hn : x.next ev = some x') : x'.Separate := by
  cases ev with
  | act a =>
    simp only [Overlapping.next] at hn
    split at hn
    · obtain ⟨s, -, rfl⟩ := Option.map_eq_some_iff.mp hn
      unfold Overlapping.Separate
      cases hy : x.base.opens a with
      | none => exact h.sublist List.filter_sublist
      | some y => exact separate_cons h hev (access_mem_touches hy)
    · cases hn
  | enter c =>
    simp only [Overlapping.next] at hn
    split at hn
    · next p hp =>
      split at hn
      · next hidle =>
        cases hn
        simp only [Overlapping.idle, Bool.and_eq_true, List.all_eq_true] at hidle
        have hothers : x.others (some c) = x.busy := by
          refine List.filter_eq_self.mpr fun y hy => ?_
          have hne : y.thread ≠ c := of_decide_eq_true (hidle.1 y hy)
          exact decide_eq_true fun hc => hne (Option.some.inj hc).symm
        unfold Overlapping.Separate
        rw [← hothers]
        have htouches : (Section.erase c p).access ∈ x.touches (.enter c) := by
          simp [Overlapping.touches, hp, Section.erase]
        exact separate_cons h hev htouches
      · cases hn
    · cases hn
  | leave c =>
    simp only [Overlapping.next] at hn
    split at hn <;> cases hn
    exact h.sublist List.filter_sublist
  | count p =>
    cases hn
    exact h

/-- **The runs without overlap are free of races.** -/
theorem separate_of_reachableBy {x : Overlapping} (h : overlapping.ReachableBy Apart x) :
    x.Separate := by
  have hinit : overlapping.init.Separate := List.Pairwise.nil
  refine h.invariant hinit fun x ev x' hI hq hs => ?_
  simp only [overlapping, Overlapping.step] at hs
  split at hs
  · cases hs
  · obtain ⟨y, hy, rfl⟩ := Option.map_eq_some_iff.mp hs
    show y.Separate
    exact separate_step hI hq.1 hy

/-! ## Every run of the atomic steps -/

theorem erasesAt_of_returning {s : State} {c : Caller}
    (h : ∀ e, s.call c ≠ some ⟨e, .locked⟩) : s.erasesAt c = none := by
  unfold State.erasesAt
  split
  · next e hc => exact absurd hc (h e)
  · rfl

theorem releaseOwner_call (s : State) (e : SuspendId) (o : Owner) :
    (s.releaseOwner e o).call = s.call := by
  unfold State.releaseOwner
  split
  · rfl
  · split <;> rfl

theorem thread_of_opens {s : State} {a : Act} {y : Section} (h : s.opens a = some y) :
    a = .wakeErase y.thread ∨ a = .wakeRelease y.thread := by
  cases a with
  | wakeErase c =>
    obtain ⟨p, -, rfl⟩ := Option.map_eq_some_iff.mp h
    exact Or.inl rfl
  | wakeRelease c =>
    obtain ⟨p, -, rfl⟩ := Option.map_eq_some_iff.mp h
    exact Or.inr rfl
  | _ => cases h

/-- After `wakeErase` and after `wakeRelease` the call of `c` has nothing left to erase. -/
theorem erasesAt_of_step {s s' : State} {c : Caller} {a : Act}
    (ha : a = .wakeErase c ∨ a = .wakeRelease c) (hs : step s a = some s') :
    s'.erasesAt c = none := by
  refine erasesAt_of_returning fun e hc => ?_
  rcases ha with rfl | rfl
  · cases steps_of_step hs with
    | eraseNone => simp at hc
    | erase _ _ _ hst =>
      rcases hst with rfl | rfl <;> simp at hc
  · cases steps_of_step hs with
    | release =>
      rw [releaseOwner_call] at hc
      simp at hc

/-- A thread alone: what it does overlaps nothing. -/
theorem not_overlaps_of_others {x : Overlapping} {ev : Event} (h : x.others ev.thread = []) :
    ¬ x.Overlaps ev := by
  rintro ⟨y, hy, -⟩
  rw [h] at hy
  cases hy

theorem step_of_others {x x' : Overlapping} {ev : Event} (hr : x.raced = false)
    (ho : x.others ev.thread = []) (hn : x.next ev = some x') (hr' : x'.raced = false) :
    overlapping.step x ev = some x' := by
  obtain ⟨s, busy, _⟩ := x'
  cases hr'
  simp [overlapping, Overlapping.step, hr, hn, not_overlaps_of_others ho]

/-- The step `a` of a thread that nobody disturbs. What it leaves in progress ends at once. -/
theorem closed_step {x : Overlapping} {s' : State} {a : Act}
    (hx : overlapping.ReachableBy Apart x) (hp : StealsIdle x.base a)
    (hs : step x.base a = some s') (hready : x.ready a = true) (ho : x.others a.thread = []) :
    overlapping.ReachableBy Apart { base := s' } := by
  have hr := not_raced_of_reachableBy hx
  have hact : overlapping.ReachableBy Apart { base := s', busy := (x.base.opens a).toList } := by
    refine .step (a := .act a) hx ⟨not_overlaps_of_others ho, fun _ h => by cases h; exact hp⟩
      (step_of_others hr ho ?_ rfl)
    simp [Overlapping.next, hready, hs, ho, hr]
  cases hy : x.base.opens a with
  | none => simpa [hy] using hact
  | some y =>
    rw [hy] at hact
    have hother : Overlapping.others { base := s', busy := [y] } (some y.thread) = [] := by
      simp [Overlapping.others]
    refine .step (a := .leave y.thread) hact
      ⟨not_overlaps_of_others hother, fun _ h => by cases h⟩ (step_of_others rfl hother ?_ rfl)
    simp [Overlapping.next, Overlapping.idle, erasesAt_of_step (thread_of_opens hy) hs, hother]

/-- Every step of the scheduler, with the operations that belong to it in a row. -/
theorem serial_step {s s' : State} {a : Act} (hp : StealsIdle s a) (hs : step s a = some s')
    (h : overlapping.ReachableBy Apart { base := s }) :
    overlapping.ReachableBy Apart { base := s' } := by
  by_cases herase : ∃ c p, a = .wakeErase c ∧ s.erasesAt c = some p
  · obtain ⟨c, p, rfl, hc⟩ := herase
    have henter : overlapping.ReachableBy Apart { base := s, busy := [.erase c p] } := by
      refine .step (a := .enter c) h ⟨not_overlaps_of_others rfl, fun _ h => by cases h⟩
        (step_of_others rfl rfl ?_ rfl)
      simp [Overlapping.next, Overlapping.idle, Overlapping.mutexFree, hc]
    refine closed_step henter hp hs ?_ ?_
    · simp [Overlapping.ready, Overlapping.idle, Section.erase]
    · simp [Overlapping.others, Act.thread, Section.erase]
  · refine closed_step h hp hs ?_ rfl
    cases a with
    | wakeErase c =>
      have hnone : s.erasesAt c = none := by
        cases hc : s.erasesAt c with
        | none => rfl
        | some p => exact absurd ⟨c, p, rfl, hc⟩ herase
      simp [Overlapping.ready, hnone]
    | _ => simp [Overlapping.ready, Act.thread, Overlapping.idle]

/-- The runs without overlap go through the states of the atomic system, and through all of
them. -/
theorem exists_apart_iff {s : State} :
    (∃ x, overlapping.ReachableBy Apart x ∧ x.base = s) ↔ scheduler.ReachableBy StealsIdle s := by
  refine ⟨fun ⟨x, hx, hb⟩ => hb ▸ base_of_reachableBy hx, fun h => ⟨{ base := s }, ?_, rfl⟩⟩
  exact h.invariant (I := fun s => overlapping.ReachableBy Apart { base := s }) .init
    fun _ _ _ hI hp hs => serial_step hp hs hI

/-! ## Exactly once -/

structure Overlapping.ResumedOnce (x : Overlapping) : Prop where
  /-- no two threads have been at a `runQue_` or a `waitSet_` in a conflicting way -/
  defined : x.raced = false
  base : x.base.ResumedOnce

/--
**Each suspension is resumed exactly once**, as long as nothing gets at a `runQue_` or a `waitSet_`
in the middle of an operation that does not hold the lock of it.
-/
theorem resumedOnce_of_apart {x : Overlapping} (h : overlapping.ReachableBy Apart x) :
    x.ResumedOnce :=
  ⟨not_raced_of_reachableBy h, resumedOnce_of_stealsIdle (base_of_reachableBy h)⟩

/-- `WakeUp` up to the destruction of its local `shared_ptr`, without a break. -/
def wakeUntilRelease (c : Caller) (e : SuspendId) : List Event :=
  [.act (.wakeLock c e), .enter c, .act (.wakeErase c), .leave c, .act (.wakeNotify c)]

/-- Two `WakeUp` calls compete for the first suspension of a task, a late one comes after it has
been resumed, and the task suspends itself again. -/
def competingWakeUps : List Event :=
  (Event.act <$> ([.addTask 0 (.uniquePtr 1)] ++ processSteps 0 5 ++
    [.suspend 0, .wakeLock (.other 1) 0])) ++
  wakeUntilRelease (.other 0) 0 ++ [.enter (.other 1), .act (.wakeRelease (.other 0)),
    .act (.wakeErase (.other 1)), .leave (.other 1), .act (.wakeNotify (.other 1)),
    .act (.wakeRelease (.other 1)), .leave (.other 1)] ++
  (Event.act <$> ([.yield 0] ++ processSteps 0 3 ++
    [.suspend 0, .wakeLock (.other 0) 0, .yield 0]))

theorem resumedOnce_competingWakeUps :
    ∃ x, overlapping.runBy Apart overlapping.init competingWakeUps = some x ∧
      (x.base.suspension 0).map (·.pushes) = some 1 ∧
      (x.base.suspension 1).map (·.pushes) = some 0 ∧ x.ResumedOnce := by
  have hrun : (overlapping.runBy Apart overlapping.init competingWakeUps).map
      (fun x => ((x.base.suspension 0).map (·.pushes), (x.base.suspension 1).map (·.pushes)))
        = some (some 1, some 0) := by decide +kernel
  obtain ⟨x, hx, hq⟩ := Option.map_eq_some_iff.mp hrun
  simp only [Prod.mk.injEq] at hq
  exact ⟨x, hx, hq.1, hq.2, resumedOnce_of_apart (.of_runBy .init hx)⟩

/-- Two tasks of processor 0 are suspended, two threads wake one each, and the second deleter
begins to push while the first one is still at it. -/
def crossingPushes : List Event :=
  (Event.act <$> ([.addTask 0 (.list [1, 2])] ++ processSteps 0 5 ++ [.suspend 0, .yield 0] ++
    processSteps 0 2 ++ [.suspend 0, .yield 0])) ++
  wakeUntilRelease (.other 0) 0 ++ wakeUntilRelease (.other 1) 1 ++
  [.act (.wakeRelease (.other 0)), .act (.wakeRelease (.other 1))]

theorem not_resumedOnce : ¬ ∀ x, overlapping.Reachable x → x.ResumedOnce := by
  intro hall
  have hrun : (overlapping.run overlapping.init crossingPushes).map (·.raced) = some true := by
    decide +kernel
  obtain ⟨x, hx, hq⟩ := Option.map_eq_some_iff.mp hrun
  have hdef := (hall x (Lts.reachable_of_run hx)).defined
  rw [hq] at hdef
  cases hdef

end Nemo.Coroutine
