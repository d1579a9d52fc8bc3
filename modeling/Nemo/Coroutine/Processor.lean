import Mathlib.Data.Finset.Basic
import Mathlib.Logic.Function.Basic
import Nemo.Infra.Lts
import Nemo.Container.ConcurrentLinkedDeque

/-!
# Tasks, processors and suspensions

The state of `src/coroutine/processor.cc`: the processors with their queues and the place their
`process()` loop has reached, the tasks, and one control block (`Suspension`) for every `std::shared_ptr<Task>`
that `suspendBySelf` has made.

A step is one critical section of the source, or the push of a `TaskPointerDeleter`. The threads
are the processors' own threads, any number of other threads that wake or add tasks, and the
balancer.

* `process()` is cut at every lock it takes; `Pc` names the places between the cuts
* `WakeUp` is cut at `lock()`, the section under `mutex_`, `notifiNewQueCondition` and the
  destruction of its local `shared_ptr`
* each `addTask` overload is one section, except the iterator-range template, which takes the
  lock once for each element and never notifies

Every step is atomic here. The locks of the source do not make it so for the deleter's push, which
takes no lock, for `runQue_.sizeUnsafe()` in `wakeUpBySelf`, and for `waitSet_`, which is filled
under `waitSetMutex_` and erased from under `mutex_`. The module `Overlap` gives these operations a
beginning and an end, and says when the atomic steps are what happens.

A `Runnable` that holds a callback becomes a task when it is taken out of a queue; here it has its
task's identifier from the start. The scheduler is never stopped in this model.
-/

namespace Nemo.Coroutine

open Function (update)

abbrev TaskId := Nat
abbrev ProcId := Nat
abbrev SuspendId := Nat

/-- `Task::State`. -/
inductive TaskState
  | ready | running | block | done | except | unknown
  deriving DecidableEq, Repr

/-- The fields of a `Task` that scheduling reads. -/
structure Task where
  processor : Option ProcId := none
  state : TaskState := .ready
  deriving DecidableEq, Repr

/-- Where `process()` goes on after an `addNewTask()`. -/
inductive AfterAdd
  | retry | acquire | requeue | erase
  deriving DecidableEq, Repr

/-- The places of `process()` between two steps. -/
inductive Pc
  /-- head of the outer loop, before `runQue_.popFront(run)` -/
  | acquire
  /-- in `addNewTask()`, before `newQue_.popAll()` -/
  | popNew (k : AfterAdd)
  /-- in `addNewTask()`, before `runQue_.pushBack` of what was popped -/
  | pushNew (k : AfterAdd)
  /-- before the second `runQue_.popFront(run)` of the outer loop -/
  | retry
  /-- in `waitNewQueCondition()`, before it takes the lock -/
  | enterWait
  /-- inside `newQueCond_.wait` -/
  | blocked
  /-- notified, before the lock is taken again -/
  | woken
  /-- head of the inner loop, `runningTask_` is set -/
  | dispatch
  /-- inside `swapIn()`: the code of the task runs -/
  | running
  /-- `swapIn()` has returned, before the `switch` -/
  | switching
  /-- case `RUNNING`, before `runQue_.emplaceBack(std::move(runningTask_))` -/
  | requeue
  /-- case `RUNNING`, before `runQue_.popFront(run)` -/
  | takeNext
  /-- cases `EXCEPT` and `DONE`, before `newQue_.popFront(run)` -/
  | erase
  deriving DecidableEq, Repr

def AfterAdd.pc : AfterAdd → Pc
  | .retry => .retry
  | .acquire => .acquire
  | .requeue => .requeue
  | .erase => .erase

/-- A `Processor`. `inHand` is the list that `addNewTask()` has popped and not yet pushed. -/
structure Processor where
  pc : Pc := .acquire
  newQue : List TaskId := []
  runQue : List TaskId := []
  inHand : List TaskId := []
  runningTask : Option TaskId := none
  nextTask : Option TaskId := none
  /-- `waitSet_`: its `shared_ptr`s are found by the raw task pointer -/
  waitSet : TaskId → Option SuspendId := fun _ => none
  waitting : Bool := false
  notified : Bool := false

/-- A thread that calls `WakeUp`. -/
inductive Caller
  | processor (p : ProcId)
  | other (k : Nat)
  deriving DecidableEq, Repr

/-- The `shared_ptr` objects that can share a suspended task. -/
inductive Owner
  /-- the local `taskPtr` of `suspendBySelf` -/
  | taskPtr
  /-- the element of `waitSet_` -/
  | waitSet
  /-- the local `task` of a `WakeUp` call -/
  | caller (c : Caller)
  deriving DecidableEq, Repr

/--
The control block of the `shared_ptr` made by one `Suspend`: the task, the processor of its
`TaskPointerDeleter`, and the owners that remain. `locked` and `pushes` record what has happened:
whether some `WakeUp` has locked it, and how often the deleter has pushed the task.
-/
structure Suspension where
  task : TaskId
  processor : ProcId
  owners : Finset Owner
  locked : Bool := false
  pushes : Nat := 0

/-- How far a `WakeUp` call has got. -/
inductive WakeStage
  /-- `lock()` has succeeded -/
  | locked
  /-- the section under `mutex_` is over and decided to notify -/
  | notifying (p : ProcId)
  /-- only the destruction of the local `shared_ptr` is left -/
  | returning
  deriving DecidableEq, Repr

structure WakeCall where
  entry : SuspendId
  stage : WakeStage
  deriving DecidableEq, Repr

/--
The whole system. `range k` is the processor to which thread `k` is adding an iterator range,
`transfer` and `stealing` are the local variables of the balancer: the tasks it has in its hands,
and the part of `steal` that is still to do.
-/
structure State where
  task : TaskId → Task := fun _ => {}
  proc : ProcId → Processor := fun _ => {}
  suspension : SuspendId → Option Suspension := fun _ => none
  nextSuspension : SuspendId := 0
  call : Caller → Option WakeCall := fun _ => none
  range : Nat → Option ProcId := fun _ => none
  transfer : List TaskId := []
  stealing : Option (ProcId × Nat) := none
  added : TaskId → Bool := fun _ => false

/-! ## Updates -/

def State.modifyProc (s : State) (p : ProcId) (f : Processor → Processor) : State :=
  { s with proc := update s.proc p (f (s.proc p)) }

def State.setTask (s : State) (t : TaskId) (x : Task) : State :=
  { s with task := update s.task t x }

def State.setSuspension (s : State) (e : SuspendId) (b : Suspension) : State :=
  { s with suspension := update s.suspension e (some b) }

def State.setCall (s : State) (c : Caller) (x : Option WakeCall) : State :=
  { s with call := update s.call c x }

/-! ## Queues and the condition variable -/

/-- `notifiNewQueCondition`, and the last four lines of the locking `addTask` overloads. -/
def Processor.notifiNewQueCondition (P : Processor) : Processor :=
  if P.waitting then { P with pc := if P.pc = .blocked then .woken else P.pc }
  else { P with notified := true }

/-- `newQue_.emplaceBackUnsafe` or `newQue_.pushBackUnsafe`, then the notification. -/
def Processor.addTask (P : Processor) (ts : List TaskId) : Processor :=
  { P with newQue := P.newQue ++ ts }.notifiNewQueCondition

/-- `runningTask_ = run.get()` after a `popFront(run)` that found `t`. -/
def Processor.take (P : Processor) (t : TaskId) (rest : List TaskId) : Processor :=
  { P with runQue := rest, runningTask := some t, pc := .dispatch }

/-- `runningTask_ = std::move(nextTask_); nextTask_ = nullptr`, then the test of the inner loop. -/
def Processor.takeNextTask (P : Processor) : Processor :=
  { P with
    runningTask := P.nextTask
    nextTask := none
    pc := if P.nextTask.isSome then .dispatch else .acquire }

/-! ## Suspensions -/

/--
One owner of a suspension goes away. `TaskPointerDeleter` runs when it was the last one:
it puts the task on the `runQue_` of its processor, with no lock.
-/
def State.releaseOwner (s : State) (e : SuspendId) (o : Owner) : State :=
  match s.suspension e with
  | none => s
  | some b =>
    if b.owners.erase o = ∅ then
      (s.setSuspension e { b with owners := ∅, pushes := b.pushes + 1 }).modifyProc b.processor
        fun P => { P with runQue := P.runQue ++ [b.task] }
    else s.setSuspension e { b with owners := b.owners.erase o }

/--
`suspendBySelf`. `emplace` does nothing when `waitSet_` already has an element for the task.
Nobody else has the entry before the function returns, so its last act, the end of the local
`taskPtr`, belongs to the same step.
-/
def State.suspendBySelf (s : State) (p : ProcId) (t : TaskId) : State :=
  let e := s.nextSuspension
  let inserted := ((s.proc p).waitSet t).isNone
  let s := s.setTask t { s.task t with state := .block }
  let s := s.setSuspension e
    { task := t
      processor := p
      owners := if inserted then {.taskPtr, .waitSet} else {.taskPtr} }
  let s := { s with nextSuspension := e + 1 }
  let s := s.modifyProc p fun P =>
    { P with waitSet := if inserted then update P.waitSet t (some e) else P.waitSet }
  let s := s.modifyProc p fun P =>
    match P.runQue with
    | [] => P
    | t' :: rest => { P with runQue := rest, nextTask := some t' }
  s.releaseOwner e .taskPtr

/-- `waitSet_.erase(task)`: the element is found by the raw pointer, and its owner goes away. -/
def State.eraseWaitSet (s : State) (p : ProcId) (t : TaskId) : State :=
  match (s.proc p).waitSet t with
  | none => s
  | some e =>
    (s.modifyProc p fun P => { P with waitSet := update P.waitSet t none }).releaseOwner e .waitSet

/-! ## Steps -/

/-- The `addTask` overloads that hold the lock from the insertion to the notification. -/
inductive Overload
  | task (t : TaskId)
  | uniquePtr (t : TaskId)
  | constCallback (t : TaskId)
  | callback (t : TaskId)
  | list (ts : List TaskId)
  | deque (ts : List TaskId)
  deriving DecidableEq, Repr

def Overload.tasks : Overload → List TaskId
  | .task t | .uniquePtr t | .constCallback t | .callback t => [t]
  | .list ts | .deque ts => ts

inductive Act
  /-- the next step of the `process()` thread of `p` -/
  | process (p : ProcId)
  /-- `newQueCond_.wait` returns without a notification -/
  | spurious (p : ProcId)
  /-- the running task of `p` calls `Suspend` -/
  | suspend (p : ProcId)
  /-- the running task of `p` calls `Yield` -/
  | yield (p : ProcId)
  /-- the running task of `p` ends, by an exception or not -/
  | finish (p : ProcId) (threw : Bool)
  | wakeLock (c : Caller) (e : SuspendId)
  | wakeErase (c : Caller)
  | wakeNotify (c : Caller)
  | wakeRelease (c : Caller)
  | addTask (p : ProcId) (o : Overload)
  | rangeBegin (k : Nat) (p : ProcId)
  | rangePush (k : Nat) (t : TaskId)
  | rangeEnd (k : Nat)
  /-- the balancer steals: the part of `steal(n)` on `newQue_` -/
  | stealNew (p : ProcId) (n : Nat)
  /-- the part of `steal(n)` on `runQue_` -/
  | stealRun
  /-- the balancer adds the first `n` tasks it holds to `p` -/
  | give (p : ProcId) (n : Nat)
  deriving DecidableEq, Repr

/-- The next step of `process()`. The task's own code and a blocked wait take none. -/
def State.process (s : State) (p : ProcId) : Option State :=
  let P := s.proc p
  match P.pc with
  | .acquire =>
    match P.runQue with
    | t :: rest => some (s.modifyProc p (·.take t rest))
    | [] => some (s.modifyProc p ({ · with pc := .popNew .retry }))
  | .popNew k =>
    let (all, rest) := ConcurrentLinkedDeque.popAll P.newQue
    some (s.modifyProc p ({ · with inHand := all, newQue := rest, pc := .pushNew k }))
  | .pushNew k =>
    some (s.modifyProc p fun P => { P with runQue := P.runQue ++ P.inHand, inHand := [], pc := k.pc })
  | .retry =>
    match P.runQue with
    | t :: rest => some (s.modifyProc p (·.take t rest))
    | [] => some (s.modifyProc p ({ · with pc := .enterWait }))
  | .enterWait =>
    if P.notified then some (s.modifyProc p ({ · with notified := false, pc := .popNew .acquire }))
    else some (s.modifyProc p ({ · with waitting := true, pc := .blocked }))
  | .blocked => none
  | .woken => some (s.modifyProc p ({ · with waitting := false, pc := .popNew .acquire }))
  | .dispatch =>
    match P.runningTask with
    | some t =>
      some ((s.setTask t { processor := some p, state := .running }).modifyProc p
        ({ · with pc := .running }))
    | none => none
  | .running => none
  | .switching =>
    match P.runningTask with
    | none => none
    | some t =>
      match (s.task t).state with
      | .running =>
        some (s.modifyProc p fun P =>
          { P with pc := if P.runQue.isEmpty then .popNew .requeue else .requeue })
      | .block =>
        -- `release()`: the suspension owns the task
        some (s.modifyProc p (·.takeNextTask))
      | _ =>
        some (s.modifyProc p fun P =>
          { P with pc := if P.runQue.isEmpty then .popNew .erase else .erase })
  | .requeue =>
    match P.runningTask with
    | some t =>
      some (s.modifyProc p fun P =>
        { P with runQue := P.runQue ++ [t], runningTask := none, pc := .takeNext })
    | none => none
  | .takeNext =>
    match P.runQue with
    | t :: rest => some (s.modifyProc p (·.take t rest))
    | [] => some (s.modifyProc p ({ · with runningTask := none, pc := .acquire }))
  | .erase =>
    match P.newQue with
    | t :: rest =>
      some (s.modifyProc p ({ · with newQue := rest, runningTask := some t, pc := .dispatch }))
    | [] => some (s.modifyProc p (·.takeNextTask))

/-- The code of a task runs on `p`, and the task is not inside a `WakeUp` of its own. -/
def State.atWork (s : State) (p : ProcId) : Bool :=
  (s.proc p).pc = .running && (s.call (.processor p)).isNone

/-- A processor's own thread makes a call only from the code of its running task. -/
def State.mayCall (s : State) : Caller → Bool
  | .processor p => s.atWork p
  | .other _ => true

/-- The tasks are new: a `Task` is added to one processor only, once. -/
def State.fresh (s : State) (ts : List TaskId) : Bool :=
  decide ts.Nodup && ts.all fun t => !s.added t

def State.markAdded (s : State) (ts : List TaskId) : State :=
  { s with added := fun t => s.added t || decide (t ∈ ts) }

def step (s : State) : Act → Option State
  | .process p => s.process p
  | .spurious p =>
    if (s.proc p).pc = .blocked then some (s.modifyProc p ({ · with pc := .woken })) else none
  | .suspend p =>
    match (s.proc p).runningTask with
    | some t =>
      match (s.task t).processor with
      | some q =>
        -- the assertions of `suspendBySelf`
        if s.atWork p && (s.proc q).runningTask = some t && (s.task t).state = .running then
          some (s.suspendBySelf q t)
        else none
      | none => none
    | none => none
  | .yield p =>
    if s.atWork p then some (s.modifyProc p ({ · with pc := .switching })) else none
  | .finish p threw =>
    match (s.proc p).runningTask with
    | some t =>
      if s.atWork p && (s.task t).state = .running then
        some ((s.setTask t { s.task t with state := if threw then .except else .done }).modifyProc p
          ({ · with pc := .switching }))
      else none
    | none => none
  | .wakeLock c e =>
    match s.suspension e with
    | some b =>
      if s.mayCall c && (s.call c).isNone then
        -- `weak_ptr::lock` fails when no owner remains
        if b.owners = ∅ then some s
        else some ((s.setSuspension e { b with owners := insert (.caller c) b.owners, locked := true })
          |>.setCall c (some ⟨e, .locked⟩))
      else none
    | none => none
  | .wakeErase c =>
    match s.call c with
    | some ⟨e, .locked⟩ =>
      match s.suspension e with
      | some b =>
        match (s.task b.task).processor with
        | none => some (s.setCall c (some ⟨e, .returning⟩))
        | some p =>
          let s := s.eraseWaitSet p b.task
          let stage := if 1 = (s.proc p).runQue.length || c ≠ .processor p
            then .notifying p else .returning
          some (s.setCall c (some ⟨e, stage⟩))
      | none => none
    | _ => none
  | .wakeNotify c =>
    match s.call c with
    | some ⟨e, .notifying p⟩ =>
      some ((s.modifyProc p (·.notifiNewQueCondition)).setCall c (some ⟨e, .returning⟩))
    | _ => none
  | .wakeRelease c =>
    match s.call c with
    | some ⟨e, .returning⟩ => some ((s.setCall c none).releaseOwner e (.caller c))
    | _ => none
  | .addTask p o =>
    if s.fresh o.tasks then
      some ((s.modifyProc p (·.addTask o.tasks)).markAdded o.tasks)
    else none
  | .rangeBegin k p =>
    if s.range k = none then some { s with range := update s.range k (some p) } else none
  | .rangePush k t =>
    match s.range k with
    | some p =>
      if s.fresh [t] then
        some ((s.modifyProc p fun P => { P with newQue := P.newQue ++ [t] }).markAdded [t])
      else none
    | none => none
  | .rangeEnd k =>
    if (s.range k).isSome then some { s with range := update s.range k none } else none
  | .stealNew p n =>
    if s.stealing = none then
      let (got, rest) := if n > 0 then ConcurrentLinkedDeque.popBackBulk n (s.proc p).newQue
        else ConcurrentLinkedDeque.popAll (s.proc p).newQue
      let s := s.modifyProc p ({ · with newQue := rest })
      some { s with
        transfer := s.transfer ++ got
        stealing := if got.length < n then some (p, n - got.length) else none }
    else none
  | .stealRun =>
    match s.stealing with
    | some (p, n) =>
      let (got, rest) := ConcurrentLinkedDeque.popBackBulk n (s.proc p).runQue
      let s := s.modifyProc p ({ · with runQue := rest })
      some { s with transfer := s.transfer ++ got, stealing := none }
    | none => none
  | .give p n =>
    if s.stealing = none then
      let (now, rest) := ConcurrentLinkedDeque.popFrontBulk n s.transfer
      some { s.modifyProc p (·.addTask now) with transfer := rest }
    else none

/-- The scheduler as a transition system, started with empty processors. -/
def scheduler : Infra.Lts State Act where
  init := {}
  step := step

end Nemo.Coroutine
